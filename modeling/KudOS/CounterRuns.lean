import KudOS.ShellRuns

/-!
# Runs of counter

`counter` takes its choice from a line of one character. `terminal_read` counts the newline
to the line, so every line is too long or does not start with a digit.
-/

namespace KudOS.User

open Kernel Sessions

variable {m : Machine} {link : PcbLink} {s s' s₀ : Kernel} {q : Call} {r : Reply}
  {σ : TerminalId → List ℕ} {disturbs : Kernel → Kernel → Prop} {l : List UInt8}

/-- No line is a choice. -/
theorem choose_line (buf : ℕ → UInt8) (hnul : (0 : UInt8) ∉ l) (hlen : l.length ≤ bufferMaxSize) :
    Counter.choose (l.length + 1)
        (memcpy buf 0 (cString (l ++ [newlineChar])) (l.length + 1)) =
      .message Counter.wrongChoice 0 := by
  rw [bufferMaxSize] at hlen
  have hline : (0 : UInt8) ∉ l ++ [newlineChar] := by
    intro hmem
    rcases List.mem_append.mp hmem with hmem | hmem
    · exact hnul hmem
    · exact absurd (List.mem_singleton.mp hmem) (by decide)
  have hholds : HoldsString 0 (Function.update
      (memcpy buf 0 (cString (l ++ [newlineChar])) (l.length + 1)) (l.length + 1) 0)
      (l ++ [newlineChar]) := by
    refine (holdsString_cString hline).congr fun i hi => ?_
    rw [List.length_append, List.length_singleton] at hi
    rcases Nat.lt_or_eq_of_le hi with hlt | rfl
    · rw [Function.update_of_ne (by omega), memcpy, if_pos (by omega), Nat.sub_zero]
    · have hend := cString_length (l ++ [newlineChar])
      rw [List.length_append, List.length_singleton] at hend
      rw [Function.update_self, hend]
  have hcount : strlenFrom (Function.update
      (memcpy buf 0 (cString (l ++ [newlineChar])) (l.length + 1)) (l.length + 1) 0) 1024 0 =
        l.length + 1 := by
    have hfield := hholds.fieldText_eq 1024
    rw [List.take_of_length_le (by rw [List.length_append, List.length_singleton]; omega),
      fieldText] at hfield
    rw [strlenFrom_eq, hfield, List.length_append, List.length_singleton, Nat.zero_add]
  have hrange : (0 : ℤ) ≤ l.length + 1 ∧ (l.length : ℤ) + 1 < 1024 := by omega
  have hindex : ((l.length : ℤ) + 1).toNat = l.length + 1 := by omega
  have hwrong : l.length + 1 > 1 ∨ l.length + 1 = 1 ∧ (Function.update
      (memcpy buf 0 (cString (l ++ [newlineChar])) (l.length + 1)) (l.length + 1) 0 0 < 0x30 ∨
      Function.update (memcpy buf 0 (cString (l ++ [newlineChar])) (l.length + 1))
        (l.length + 1) 0 0 > 0x32) := by
    cases l with
    | nil =>
      have hfirst := hholds.char 0 (Nat.succ_pos _)
      refine .inr ⟨rfl, .inl ?_⟩
      rw [hfirst]
      decide
    | cons c l =>
      refine .inl ?_
      rw [List.length_cons]
      omega
  rw [Counter.choose, if_neg (not_not_intro hrange)]
  simp only [hindex, hcount]
  rw [if_pos hwrong]

/-- Where `counter` stands, by the number of its calls. -/
inductive Counter.At : Config Counter Call Reply Kernel → Prop where
  | ask {s : Kernel} (buf) : Counter.At ⟨.ask buf, s, []⟩
  | readChoice {s t} (buf) (hcalls : t.length = 1) (ht : texts t = [question]) :
      Counter.At ⟨.readChoice buf, s, t⟩
  | message {s t} (hcalls : t.length = 2) (ht : texts t = [question]) :
      Counter.At ⟨.message wrongChoice 0, s, t⟩
  | ended {s t} (hcalls : t.length = 3) (ht : texts t = [question, wrongChoice]) :
      Counter.At ⟨.ended 0, s, t⟩

theorem Counter.At.withState {c : Config Counter Call Reply Kernel} (h : Counter.At c)
    (s : Kernel) : Counter.At { c with state := s } := by
  cases h with
  | ask buf => exact .ask buf
  | readChoice buf hcalls ht => exact .readChoice buf hcalls ht
  | message hcalls ht => exact .message hcalls ht
  | ended hcalls ht => exact .ended hcalls ht

structure Counter.Inv (m : Machine) (s₀ : Kernel) (c : Config Counter Call Reply Kernel) :
    Prop where
  activity : Activity m s₀ c.state
  place : Counter.At c

theorem Counter.Inv.call (hs : s₀.Sound σ) (hlive : s₀.Live s₀.cur)
    {c : Config Counter Call Reply Kernel} (h : Counter.Inv m s₀ c) {next : Reply → Counter}
    (hact : Counter.act c.loc = .call q next) (hserved : Served m link c.state q r s') :
    Counter.Inv m s₀ ⟨next r, s', c.trace ++ [(q, r)]⟩ := by
  obtain ⟨hactivity, hplace⟩ := h
  refine ⟨hactivity.trans hserved.activity, ?_⟩
  have hcount : (c.trace ++ [(q, r)]).length = c.trace.length + 1 := by
    rw [List.length_append, List.length_singleton]
  cases hplace with
  | ask buf =>
    cases hact
    exact .readChoice buf hcount (texts_puts (by decide +kernel) [] r)
  | @readChoice s t buf hcalls ht =>
    cases hact
    obtain ⟨l, hnul, -, hlen, rfl⟩ :=
      served_stdin (running_of_activity hs hlive hactivity) hserved
    have hne : ¬ -1 = (l.length : ℤ) + 1 := by omega
    dsimp only at hcount ⊢
    rw [if_neg hne, choose_line buf hnul hlen]
    refine .message (by rw [hcount, hcalls]) ?_
    rw [(read_line t buf 1023 l).2.2.1, ht]
  | @message s t hcalls ht =>
    cases hact
    refine .ended (by rw [hcount, hcalls]) ?_
    rw [texts_puts (by decide +kernel), ht]
    rfl
  | ended hcalls ht => cases hact

theorem Counter.keeps (hs : s₀.Sound σ) (hlive : s₀.Live s₀.cur)
    (hd : ∀ s s', disturbs s s' → Interrupted s s') :
    (session m link Counter.act disturbs).Keeps (Counter.Inv m s₀) where
  interference h hi := ⟨h.activity.trans (hd _ _ hi).activity, h.place.withState _⟩
  call h hact hserved := h.call hs hlive hact hserved

/-- What holds in every run of `counter` from `s₀`. -/
structure CounterLaw (s₀ : Kernel) (c : Config Counter Call Reply Kernel) : Prop where
  texts : texts c.trace <+: [Counter.question, Counter.wrongChoice]
  calls : c.trace.length ≤ 3
  defined : Counter.act c.loc ≠ .undefined
  exit : ∀ status, Counter.act c.loc = .exit status →
    status = 0 ∧ User.texts c.trace = [Counter.question, Counter.wrongChoice]
  keeps : s₀.Keeps c.state

/-- Interrupts neither switch the terminal nor halt the program. Then `counter` never counts:
it refuses every line that it is given, and returns 0 after three calls. -/
theorem counter_run (h : Reachable m ByLive s₀) (hlive : s₀.Live s₀.cur)
    (hd : ∀ s s', disturbs s s' → Interrupted s s') (link : PcbLink) (buf : ℕ → UInt8)
    (c : Config Counter Call Reply Kernel)
    (hr : (session m link Counter.act disturbs).Run ⟨.ask buf, s₀, []⟩ c) : CounterLaw s₀ c := by
  obtain ⟨σ, hs⟩ := h.sound
  have hkept : (session m link Counter.act disturbs).Keeps (Counter.Inv m s₀) :=
    Counter.keeps hs hlive hd
  obtain ⟨hactivity, hplace⟩ := hkept.run hr ⟨.done s₀, .ask buf⟩
  have hkeeps := (hactivity.keeps σ hs hlive).1
  cases hplace with
  | ask buf => exact ⟨List.nil_prefix, by simp, nofun, nofun, hkeeps⟩
  | readChoice buf hcalls ht =>
    exact ⟨ht ▸ ⟨[Counter.wrongChoice], rfl⟩, hcalls.le.trans (by decide), nofun, nofun, hkeeps⟩
  | message hcalls ht =>
    exact ⟨ht ▸ ⟨[Counter.wrongChoice], rfl⟩, hcalls.le.trans (by decide), nofun, nofun, hkeeps⟩
  | ended hcalls ht =>
    refine ⟨ht ▸ List.prefix_rfl, hcalls.le, nofun, fun status hact => ?_, hkeeps⟩
    cases hact
    exact ⟨rfl, ht⟩

/-- `counter` in the process of the first shell. -/
theorem counter_run_booted : ∃ s₀, Reachable shellMachine ByLive s₀ ∧
    ∀ c, (session shellMachine ⟨fun _ => 0, fun _ => 0⟩ Counter.act
      (KeyPressed shellMachine)).Run ⟨.ask fun _ => 0, s₀, []⟩ c → CounterLaw s₀ c := by
  obtain ⟨s₀, hs, hinst, -⟩ := shellMachine_boots ByLive
  exact ⟨s₀, hs, fun c hr => counter_run hs hinst.live (fun _ _ h => h.interrupted) _ _ c hr⟩

end KudOS.User
