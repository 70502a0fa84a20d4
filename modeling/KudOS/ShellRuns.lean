import KudOS.ProgramResults

/-!
# Runs of the shell

The loop of the shell reads a line, runs it as a command and reports what became of it.
The commands it runs are the lines that were entered, in order, up to `exit`. The kernel
answers a command with 0 or with -1, so of its messages it prints one only.
-/

namespace KudOS.User

open Kernel Sessions

variable {m : Machine} {link : PcbLink} {s s' s₀ : Kernel} {q : Call} {r : Reply}
  {σ : TerminalId → List ℕ} {disturbs : Kernel → Kernel → Prop} {l l1 l2 : List UInt8}
  {s1 s2 : ℕ → UInt8}

/-! ## What the kernel answers -/

theorem readLoop_line (b : ℕ → UInt8) (count : ℤ) (n i : ℕ) :
    (∀ c ∈ Tty.readLoop b count n i, c ≠ 0 ∧ c ≠ newlineChar) ∧
      (Tty.readLoop b count n i).length ≤ n := by
  induction n generalizing i with
  | zero => exact ⟨fun c hc => absurd hc List.not_mem_nil, Nat.le_refl 0⟩
  | succ n ih =>
    rw [Tty.readLoop]
    split
    · rename_i hgo
      refine ⟨fun c hc => ?_, Nat.succ_le_succ (ih (i + 1)).2⟩
      rcases List.mem_cons.mp hc with rfl | hrest
      · exact ⟨hgo.2.1, hgo.2.2.2⟩
      · exact (ih (i + 1)).1 c hrest
    · exact ⟨fun c hc => absurd hc List.not_mem_nil, Nat.zero_le _⟩

/-- A line from the keyboard, with the newline that `terminal_read` puts behind it. -/
theorem served_stdin (h : Running s) {buf : ℕ → UInt8} {n : ℤ}
    (hserved : Served m link s (.read 0 buf n) r s') :
    ∃ l : List UInt8, (0 : UInt8) ∉ l ∧ newlineChar ∉ l ∧ l.length ≤ bufferMaxSize ∧
      r = ⟨l.length + 1, memcpy buf 0 (cString (l ++ [newlineChar])) (l.length + 1)⟩ := by
  have hflags : ¬ s.flagsAt m 0 = 0 := by
    have hzero : s.flagsAt m 0 = (s.files 0).flags := flagsAt_eq m s (by decide : 0 ≤ 7)
    rw [hzero, h.table.stdin.2]
    decide
  have htarget : s.readTarget (0 : ℤ).toNat = some .terminalRead := by
    change (s.files 0).fileOps.bind _ = _
    rw [h.table.stdin.1]
    rfl
  cases hserved with
  | read hx =>
    rw [sysRead_eq, if_neg (not_or.mpr ⟨hflags, by decide⟩)] at hx
    simp only [htarget] at hx
    obtain ⟨⟨out, y⟩, hread, hpure⟩ := bind_eq_ok.mp hx
    cases hpure
    unfold Tty.terminalRead at hread
    split at hread
    · cases hread
      obtain ⟨hchar, hlen⟩ := readLoop_line s.tty.curBuffer n bufferMaxSize 0
      refine ⟨_, fun hz => (hchar _ hz).1 rfl, fun hz => (hchar _ hz).2 rfl, hlen, ?_⟩
      rw [List.length_append, List.length_singleton]
      rfl
    · cases hread

/-- The status of a program is lost in `halt`. -/
theorem halt_resumed_zero {fr : StackFrame} {status : UInt8} {esp ebp : ℕ} {v : ℤ}
    (hx : s.halt m fr status = .ok (.resumed esp ebp v, s')) : v = 0 := by
  have htail : ∀ {s₁ : Kernel}, s₁.haltTail m = .ok (.resumed esp ebp v, s') → v = 0 := by
    intro s₁ htail
    obtain ⟨s₂, -, htail⟩ := bind_eq_ok.mp htail
    obtain ⟨p, -, htail⟩ := bind_eq_ok.mp htail
    cases htail
    rfl
  unfold halt at hx
  split at hx
  · obtain ⟨s₁, -, hx⟩ := bind_eq_ok.mp hx
    obtain ⟨⟨o, s₂⟩, -, hx⟩ := bind_eq_ok.mp hx
    cases o with
    | started entry => cases hx
    | returned w => exact htail hx
  · exact htail hx

theorem served_execute (hs : s.Sound σ) {command : ℕ → UInt8}
    (hserved : Served m link s (.execute command) r s') : r.value = 0 ∨ r.value = -1 := by
  cases hserved with
  | refused htext hx =>
    cases execute_cases hs.ready hx with
    | limit => exact Or.inl rfl
    | failed => exact Or.inr rfl
  | program htext hx body hh => exact Or.inl (halt_resumed_zero hh)

/-! ## Strings -/

theorem ece391Strcmp_succ (n i : ℕ) : ece391Strcmp s1 s2 n (i + 1) =
    ece391Strcmp (fun k => s1 (k + 1)) (fun k => s2 (k + 1)) n i := by
  induction n generalizing i with
  | zero => rfl
  | succ n ih => rw [ece391Strcmp, ece391Strcmp, ih]

theorem toNat_sub_ne_zero {a b : UInt8} (h : a ≠ b) : (a.toNat : ℤ) - b.toNat ≠ 0 := by
  intro hsub
  exact h (UInt8.toNat_inj.mp (by omega))

theorem ece391Strcmp_of_ne (h : s1 0 ≠ s2 0) (n : ℕ) : ece391Strcmp s1 s2 (n + 1) 0 ≠ some 0 := by
  intro hcmp
  rw [ece391Strcmp, if_neg h] at hcmp
  exact toNat_sub_ne_zero h (Option.some.inj hcmp)

/-- By induction on the first string. -/
theorem ece391Strcmp_eq_zero_iff (h1 : HoldsString 0 s1 l1) (h2 : HoldsString 0 s2 l2) {n : ℕ}
    (hn : l2.length ≤ n) : ece391Strcmp s1 s2 (n + 1) 0 = some 0 ↔ l1 = l2 := by
  induction l1 generalizing l2 s1 s2 n with
  | nil =>
    have hz : s1 0 = 0 := h1.terminated
    cases l2 with
    | nil =>
      have hz' : s2 0 = 0 := h2.terminated
      rw [ece391Strcmp, if_pos (hz.trans hz'.symm), if_pos hz]
      exact iff_of_true rfl rfl
    | cons d l2 =>
      refine iff_of_false (ece391Strcmp_of_ne ?_ n) (List.cons_ne_nil d l2).symm
      rw [hz]
      exact (h2.char_ne (Nat.succ_pos _)).symm
  | cons c l1 ih =>
    obtain ⟨hc, hc0⟩ := h1.head
    cases l2 with
    | nil =>
      refine iff_of_false (ece391Strcmp_of_ne ?_ n) (List.cons_ne_nil c l1)
      have hz : s2 0 = 0 := h2.terminated
      rwa [hz, hc]
    | cons d l2 =>
      obtain ⟨hd, -⟩ := h2.head
      rw [List.length_cons] at hn
      by_cases hcd : c = d
      · obtain ⟨k, rfl⟩ : ∃ k, n = k + 1 := ⟨n - 1, by omega⟩
        have hrest := ih h1.tail h2.tail (n := k) (by omega)
        rw [ece391Strcmp, if_pos (by rw [hc, hd, hcd]), if_neg (by rwa [hc]), ece391Strcmp_succ,
          hrest, hcd, List.cons_inj_right]
      · refine iff_of_false (ece391Strcmp_of_ne ?_ n) fun h => hcd (List.cons.inj h).1
        rwa [hc, hd]

/-! ## A line -/

/-- What the shell does not run. -/
def exitCommand : List UInt8 := literal "exit"

theorem update_newline_holds (buf : ℕ → UInt8) (hnul : (0 : UInt8) ∉ l) :
    HoldsString 0 (Function.update
      (memcpy buf 0 (cString (l ++ [newlineChar])) (l.length + 1)) l.length 0) l := by
  refine (holdsString_cString hnul).congr fun i hi => ?_
  rcases Nat.lt_or_eq_of_le hi with hlt | rfl
  · rw [Function.update_of_ne (by omega), memcpy, if_pos (by omega), Nat.sub_zero,
      cString_of_lt (by rw [List.length_append]; omega), List.getElem_append_left hlt,
      cString_of_lt hlt]
  · rw [Function.update_self, cString_length]

/-- The part of the loop between `read` and `execute`, for a line with its newline. -/
theorem examine_line (buf : ℕ → UInt8) (hnul : (0 : UInt8) ∉ l)
    (hlen : l.length ≤ bufferMaxSize) :
    ∃ buf', HoldsString 0 buf' l ∧ Shell.examine (l.length + 1)
        (memcpy buf 0 (cString (l ++ [newlineChar])) (l.length + 1)) =
      if l = exitCommand then .ended 0 else if l = [] then .prompt buf' else .command buf' := by
  rw [bufferMaxSize] at hlen
  have hholds := update_newline_holds buf hnul
  have hlast : memcpy buf 0 (cString (l ++ [newlineChar])) (l.length + 1) l.length = 0x0A := by
    rw [memcpy, if_pos (by omega), Nat.sub_zero,
      cString_of_lt (by rw [List.length_append, List.length_singleton]; omega),
      List.getElem_append_right le_rfl]
    simp
  have hnulExit : (0 : UInt8) ∉ exitCommand := by decide +kernel
  have hexit := ece391Strcmp_eq_zero_iff hholds (holdsString_cString hnulExit) (n := 4)
    (by decide +kernel)
  have hempty : 0 = Function.update
      (memcpy buf 0 (cString (l ++ [newlineChar])) (l.length + 1)) l.length 0 0 ↔ l = [] := by
    constructor
    · intro hz
      by_contra hne
      exact hholds.char_ne (List.length_pos_of_ne_nil hne) hz.symm
    · rintro rfl
      exact hholds.terminated.symm
  have hpos : (0 : ℤ) < l.length + 1 := by omega
  have hrange : (0 : ℤ) ≤ l.length ∧ (l.length : ℤ) < 1024 := by omega
  refine ⟨_, hholds, ?_⟩
  simp only [Shell.examine, hpos, Int.add_sub_cancel, Int.toNat_natCast, hlast, and_self, if_true,
    hrange, not_true, if_false, ← hexit, ← hempty]
  rfl

/-! ## The conversation -/

def banner : List UInt8 := literal "Starting 391 Shell\n"
def promptText : List UInt8 := literal "391OS> "
def noSuchCommand : List UInt8 := literal "no such command\n"

/-- The lines that were entered, without their newlines. -/
def linesRead (t : List (Call × Reply)) : List (List UInt8) :=
  t.filterMap fun e => match e.1 with
    | .read _ _ _ => some ((List.range (e.2.value - 1).toNat).map e.2.buf)
    | _ => none

def commandsRun (t : List (Call × Reply)) : List (List UInt8) :=
  t.filterMap fun e => match e.1 with
    | .execute command => some (fieldText 0 command 1024)
    | _ => none

def texts (t : List (Call × Reply)) : List (List UInt8) := (writes t).map WriteCall.bytes

/-- The texts that belong to the calls: a prompt before each line, and a message behind
each command that was refused. -/
def dialogue (t : List (Call × Reply)) : List (List UInt8) :=
  banner :: t.flatMap fun e => match e.1 with
    | .read _ _ _ => [promptText]
    | .execute _ => if e.2.value = -1 then [noSuchCommand] else []
    | _ => []

def isCommand (l : List UInt8) : Bool := l ≠ [] ∧ l ≠ exitCommand

theorem linesRead_append (t t' : List (Call × Reply)) :
    linesRead (t ++ t') = linesRead t ++ linesRead t' := List.filterMap_append

theorem commandsRun_append (t t' : List (Call × Reply)) :
    commandsRun (t ++ t') = commandsRun t ++ commandsRun t' := List.filterMap_append

theorem texts_append (t t' : List (Call × Reply)) : texts (t ++ t') = texts t ++ texts t' := by
  rw [texts, writes, List.filterMap_append, List.map_append]
  rfl

theorem dialogue_append (t t' : List (Call × Reply)) :
    dialogue (t ++ t') = dialogue t ++ (dialogue t').tail := by
  rw [dialogue, List.flatMap_append]
  rfl

/-- Where the shell stands in the conversation. -/
inductive Shell.At : Config Shell Call Reply Kernel → Prop where
  | start {s : Kernel} (buf) : Shell.At ⟨.start buf, s, []⟩
  | prompt {s t} (buf) (hrun : commandsRun t = (linesRead t).filter isCommand)
      (hexit : exitCommand ∉ linesRead t) (htexts : texts t = dialogue t) :
      Shell.At ⟨.prompt buf, s, t⟩
  | readLine {s t} (buf) (hrun : commandsRun t = (linesRead t).filter isCommand)
      (hexit : exitCommand ∉ linesRead t) (htexts : texts t = dialogue t ++ [promptText]) :
      Shell.At ⟨.readLine buf, s, t⟩
  | command {s t buf line} (hbuf : HoldsString 0 buf line) (hlen : line.length ≤ bufferMaxSize)
      (hrun : commandsRun t ++ [line] = (linesRead t).filter isCommand)
      (hexit : exitCommand ∉ linesRead t) (htexts : texts t = dialogue t) :
      Shell.At ⟨.command buf, s, t⟩
  | report {s t} (buf) (hrun : commandsRun t = (linesRead t).filter isCommand)
      (hexit : exitCommand ∉ linesRead t) (htexts : texts t ++ [noSuchCommand] = dialogue t) :
      Shell.At ⟨.report noSuchCommand buf, s, t⟩
  | ended {s t ls} (hlines : linesRead t = ls ++ [exitCommand]) (hexit : exitCommand ∉ ls)
      (hrun : commandsRun t = ls.filter isCommand) (htexts : texts t = dialogue t) :
      Shell.At ⟨.ended 0, s, t⟩

theorem Shell.At.withState {c : Config Shell Call Reply Kernel} (h : Shell.At c) (s : Kernel) :
    Shell.At { c with state := s } := by
  cases h with
  | start buf => exact .start buf
  | prompt buf hrun hexit htexts => exact .prompt buf hrun hexit htexts
  | readLine buf hrun hexit htexts => exact .readLine buf hrun hexit htexts
  | command hbuf hlen hrun hexit htexts => exact .command hbuf hlen hrun hexit htexts
  | report buf hrun hexit htexts => exact .report buf hrun hexit htexts
  | ended hlines hexit hrun htexts => exact .ended hlines hexit hrun htexts

structure Shell.Inv (m : Machine) (s₀ : Kernel) (c : Config Shell Call Reply Kernel) : Prop where
  activity : Activity m s₀ c.state
  place : Shell.At c

theorem texts_puts {text : List UInt8} (h : (0 : UInt8) ∉ text) (t : List (Call × Reply))
    (r : Reply) : texts (t ++ [(puts text, r)]) = texts t ++ [text] := by
  rw [texts, writes_append, puts_toTerminal h, Option.toList_some, List.map_append,
    List.map_singleton, WriteCall.bytes, map_cString]
  rfl

theorem puts_silent (text : List UInt8) (t : List (Call × Reply)) (r : Reply) :
    linesRead (t ++ [(puts text, r)]) = linesRead t ∧
      commandsRun (t ++ [(puts text, r)]) = commandsRun t ∧
      dialogue (t ++ [(puts text, r)]) = dialogue t := by
  rw [linesRead_append, commandsRun_append, dialogue_append]
  exact ⟨List.append_nil _, List.append_nil _, List.append_nil _⟩

theorem read_line (t : List (Call × Reply)) (buf : ℕ → UInt8) (n : ℤ) (l : List UInt8) :
    let e : Call × Reply := (.read 0 buf n,
      ⟨l.length + 1, memcpy buf 0 (cString (l ++ [newlineChar])) (l.length + 1)⟩)
    linesRead (t ++ [e]) = linesRead t ++ [l] ∧ commandsRun (t ++ [e]) = commandsRun t ∧
      texts (t ++ [e]) = texts t ∧ dialogue (t ++ [e]) = dialogue t ++ [promptText] := by
  intro e
  rw [linesRead_append, commandsRun_append, texts_append, dialogue_append]
  refine ⟨?_, List.append_nil _, List.append_nil _, rfl⟩
  have hline : (List.range ((l.length : ℤ) + 1 - 1).toNat).map
      (memcpy buf 0 (cString (l ++ [newlineChar])) (l.length + 1)) = l := by
    rw [Int.add_sub_cancel, Int.toNat_natCast]
    refine List.ext_getElem (by simp) fun i _ hi => ?_
    rw [List.getElem_map, List.getElem_range, memcpy, if_pos (by omega), Nat.sub_zero,
      cString_of_lt (by rw [List.length_append]; omega), List.getElem_append_left hi]
  exact congrArg (fun x => linesRead t ++ [x]) hline

theorem execute_command (t : List (Call × Reply)) {buf : ℕ → UInt8} (h : HoldsString 0 buf l)
    (hlen : l.length ≤ bufferMaxSize) (r : Reply) :
    linesRead (t ++ [(.execute buf, r)]) = linesRead t ∧
      commandsRun (t ++ [(.execute buf, r)]) = commandsRun t ++ [l] ∧
      texts (t ++ [(.execute buf, r)]) = texts t ∧
      dialogue (t ++ [(.execute buf, r)]) =
        dialogue t ++ if r.value = -1 then [noSuchCommand] else [] := by
  rw [linesRead_append, commandsRun_append, texts_append, dialogue_append]
  refine ⟨List.append_nil _, ?_, List.append_nil _, ?_⟩
  · have hfield : fieldText 0 buf 1024 = l := by
      rw [h.fieldText_eq, List.take_of_length_le]
      rw [bufferMaxSize] at hlen
      omega
    exact congrArg (fun x => commandsRun t ++ [x]) hfield
  · exact congrArg (dialogue t ++ ·) (List.append_nil _)

theorem Shell.Inv.call (hs : s₀.Sound σ) (hlive : s₀.Live s₀.cur)
    {c : Config Shell Call Reply Kernel} (h : Shell.Inv m s₀ c) {next : Reply → Shell}
    (hact : Shell.act c.loc = .call q next) (hserved : Served m link c.state q r s') :
    Shell.Inv m s₀ ⟨next r, s', c.trace ++ [(q, r)]⟩ := by
  obtain ⟨hactivity, hplace⟩ := h
  refine ⟨hactivity.trans hserved.activity, ?_⟩
  have hrunning := running_of_activity hs hlive hactivity
  cases hplace with
  | start buf =>
    cases hact
    obtain ⟨hlines, hcommands, hdialogue⟩ := puts_silent (literal "Starting 391 Shell\n") [] r
    refine .prompt buf ?_ ?_ ?_
    · rw [hlines, hcommands]
      rfl
    · rw [hlines]
      exact List.not_mem_nil
    · rw [texts_puts (by decide +kernel), hdialogue]
      rfl
  | @prompt s t buf hrun hexit htexts =>
    cases hact
    obtain ⟨hlines, hcommands, hdialogue⟩ := puts_silent (literal "391OS> ") t r
    refine .readLine buf ?_ ?_ ?_
    · rw [hlines, hcommands, hrun]
    · rwa [hlines]
    · rw [texts_puts (by decide +kernel), hdialogue, htexts]
      rfl
  | @readLine s t buf hrun hexit htexts =>
    cases hact
    obtain ⟨l, hnul, -, hlen, rfl⟩ := served_stdin hrunning hserved
    obtain ⟨hlines, hcommands, htext, hdialogue⟩ := read_line t buf 1023 l
    obtain ⟨buf', hholds, hexamine⟩ := examine_line buf hnul hlen
    have hne : ¬ -1 = (l.length : ℤ) + 1 := by omega
    dsimp only
    rw [if_neg hne, hexamine]
    by_cases hend : l = exitCommand
    · rw [if_pos hend]
      refine .ended (hend ▸ hlines) hexit ?_ ?_
      · rw [hcommands, hrun]
      · rw [htext, hdialogue, htexts]
    rw [if_neg hend]
    have hexit' : exitCommand ∉ linesRead t ++ [l] := by
      intro hmem
      rcases List.mem_append.mp hmem with hmem | hmem
      · exact hexit hmem
      · exact hend (List.mem_singleton.mp hmem).symm
    by_cases hblank : l = []
    · rw [if_pos hblank]
      refine .prompt buf' ?_ (by rwa [hlines]) (by rw [htext, hdialogue, htexts])
      rw [hcommands, hlines, List.filter_append, hrun, hblank]
      exact (List.append_nil _).symm
    · rw [if_neg hblank]
      refine .command hholds hlen ?_ (by rwa [hlines]) (by rw [htext, hdialogue, htexts])
      have hcommand : isCommand l = true := decide_eq_true ⟨hblank, hend⟩
      rw [hcommands, hlines, List.filter_append, hrun, List.filter_singleton, hcommand]
      rfl
  | @command s t buf line hbuf hlen hrun hexit htexts =>
    cases hact
    obtain ⟨hlines, hcommands, htext, hdialogue⟩ := execute_command t hbuf hlen r
    have hsound := (hactivity.keeps σ hs hlive).2
    dsimp only
    rcases served_execute hsound hserved with hv | hv
    · rw [hv] at hdialogue ⊢
      rw [if_neg (by decide), if_neg (by decide), if_neg (by decide)]
      refine .prompt buf (by rw [hcommands, hlines, hrun]) (by rwa [hlines]) ?_
      rw [htext, hdialogue, htexts]
      exact (List.append_nil _).symm
    · rw [hv] at hdialogue ⊢
      rw [if_pos rfl]
      refine .report buf (by rw [hcommands, hlines, hrun]) (by rwa [hlines]) ?_
      rw [htext, hdialogue, htexts]
      rfl
  | @report s t buf hrun hexit htexts =>
    cases hact
    obtain ⟨hlines, hcommands, hdialogue⟩ := puts_silent noSuchCommand t r
    refine .prompt buf ?_ ?_ ?_
    · rw [hlines, hcommands, hrun]
    · rwa [hlines]
    · rw [texts_puts (by decide +kernel), hdialogue, htexts]
  | ended hlines hexit hrun htexts => cases hact

theorem Shell.keeps (hs : s₀.Sound σ) (hlive : s₀.Live s₀.cur)
    (hd : ∀ s s', disturbs s s' → Interrupted s s') :
    (session m link Shell.act disturbs).Keeps (Shell.Inv m s₀) where
  interference h hi := ⟨h.activity.trans (hd _ _ hi).activity, h.place.withState _⟩
  call h hact hserved := h.call hs hlive hact hserved

end KudOS.User
