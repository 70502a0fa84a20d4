import KudOS.InputLine
import KudOS.ShellStart

/-!
# Typed lines and the lines that are read

A line editor folds the key presses into lines. The driver is compared with it over
runs that interleave key presses, program output and reads in any order. The two agree
as long as no key is pressed while a finished line waits for its reader and no newline
is output while there is a line in the buffer.
-/

namespace KudOS

/-! ## The line editor -/

inductive Keystroke
  | char (c : UInt8)
  | erase
  | enter
  deriving DecidableEq

/-- The entry of the table that `cap_flag` selects. -/
def tableChar (cap : Bool) (sc : UInt8) : UInt8 :=
  if cap then capKeys.getD sc.toNat 0 else keys.getD sc.toNat 0

/-- The keystroke of a scan code: Backspace, Enter and the printable keys have one. -/
def keystroke (cap : Bool) (sc : UInt8) : Option Keystroke :=
  if sc = backspaceCode then some .erase
  else if 59 ≤ sc.toNat then none
  else if tableChar cap sc = newlineChar then some .enter
  else if blankSpace ≤ tableChar cap sc then some (.char (tableChar cap sc))
  else none

/-- The lines ended by Enter, with their newlines, and the line being typed. -/
structure Typed where
  lines : List (List UInt8)
  current : List UInt8

/-- A line keeps its first 128 characters; Backspace removes the last one kept. -/
def Typed.press (t : Typed) : Keystroke → Typed
  | .char c => if t.current.length < buffLen then { t with current := t.current ++ [c] } else t
  | .erase => { t with current := t.current.dropLast }
  | .enter => ⟨t.lines ++ [t.current ++ [newlineChar]], []⟩

/-- What happens on the active terminal. System calls run behind a trap gate, so that
keys are also handled between two bytes of a `terminal_write`: a call that is
interrupted is a sequence of `putByte` and ends as a call without bytes does. -/
inductive InputEvent
  | key (sc : UInt8)
  | write (buf : Option (ℕ → UInt8)) (count : ℤ)
  | putByte (c : UInt8)
  | read (count : ℤ)

/-- Keys are printable, Backspace or Enter, and readers offer more than 128 bytes. -/
def InputEvent.Admissible (cap : Bool) : InputEvent → Prop
  | .key sc => (keystroke cap sc).isSome
  | .read count => 128 < count
  | _ => True

def Typed.event (cap : Bool) (t : Typed) : InputEvent → Typed
  | .key sc => (keystroke cap sc).elim t t.press
  | _ => t

/-- What has been typed after the given events. -/
def typedBy (cap : Bool) (events : List InputEvent) : Typed :=
  events.foldl (Typed.event cap) ⟨[], []⟩

theorem typedBy_append (cap : Bool) (events : List InputEvent) (e : InputEvent) :
    typedBy cap (events ++ [e]) = (typedBy cap events).event cap e := by
  simp [typedBy]

/-! ## The driver over whole runs -/

namespace Kernel

/-- One event, with the lines it returns to a reader. -/
def inputStep (m : Machine) (fr : StackFrame) (s : Kernel) :
    InputEvent → Except Stop (List (List UInt8) × Kernel)
  | .key sc => do return ([], ← s.keyboardHandler m fr sc)
  | .write buf count => return ([], s.onTty fun y => (y.terminalWrite buf count).2)
  | .putByte c => return ([], s.onTty fun y => y.putch c)
  | .read count => do
    let (line, y) ← s.tty.terminalRead count
    return ([line], { s with tty := y })

/-- Nothing has been typed on the active terminal, and Ctrl and Alt are up. -/
structure LineStart (s : Kernel) : Prop where
  len : s.tty.curLen = 0
  enter : s.tty.enterFlag = false
  ctrl : s.tty.ctrlFlag = false
  alt : s.tty.altFlag = false

/-- The runs from `s₀` in which every event meets `ok`, with the lines returned. -/
inductive LineRun (m : Machine) (fr : StackFrame) (ok : Tty → InputEvent → Prop) (s₀ : Kernel) :
    List InputEvent → List (List UInt8) → Kernel → Prop
  | start : LineRun m fr ok s₀ [] [] s₀
  | step {events : List InputEvent} {returned out : List (List UInt8)} {s s' : Kernel}
      {e : InputEvent} (hrun : LineRun m fr ok s₀ events returned s)
      (hadm : e.Admissible s₀.tty.capFlag) (hok : ok s.tty e)
      (hstep : s.inputStep m fr e = .ok (out, s')) :
      LineRun m fr ok s₀ (events ++ [e]) (returned ++ out) s'

end Kernel

/-- The buffer has no line that an output newline would destroy: it is empty, or the
line in it is. -/
def Tty.NothingTyped (y : Tty) : Prop := y.curLen = 0 ∨ y.curBuffer 0 = newlineChar

/-- No key is pressed while a finished line waits, except for a Backspace in an empty
buffer, and a newline is output only when nothing is typed. -/
def Tty.Safe (y : Tty) : InputEvent → Prop
  | .key sc => y.enterFlag = false ∨ sc = backspaceCode ∧ y.curLen = 0
  | .write buf count =>
    (∃ b, buf = some b ∧ ∃ i < count.toNat, b i = newlineChar) → y.NothingTyped
  | .putByte c => c = newlineChar → y.NothingTyped
  | .read _ => True

/-! ## The handler on a keystroke -/

/-- The three kinds of key a keystroke comes from. -/
inductive KeystrokeOf (cap : Bool) (sc : UInt8) : Keystroke → Prop
  | erase (hsc : sc = backspaceCode) : KeystrokeOf cap sc .erase
  | enter (hsc : sc ≠ backspaceCode) (hlt : sc.toNat < 59) (hc : tableChar cap sc = newlineChar) :
      KeystrokeOf cap sc .enter
  | char (hsc : sc ≠ backspaceCode) (hlt : sc.toNat < 59) (hc : tableChar cap sc ≠ newlineChar)
      (hprint : blankSpace ≤ tableChar cap sc) : KeystrokeOf cap sc (.char (tableChar cap sc))

theorem keystroke_cases {cap : Bool} {sc : UInt8} {k : Keystroke}
    (h : keystroke cap sc = some k) : KeystrokeOf cap sc k := by
  unfold keystroke at h
  split at h
  · rename_i hsc
    cases h
    exact .erase hsc
  · rename_i hsc
    split at h
    · cases h
    · rename_i hlt
      split at h
      · rename_i hc
        cases h
        exact .enter hsc (by omega) hc
      · rename_i hc
        split at h
        · rename_i hprint
          cases Option.some.inj h
          exact .char hsc (by omega) hc hprint
        · cases h

theorem keystroke_modifier {cap : Bool} {sc : UInt8} {k : Keystroke}
    (h : keystroke cap sc = some k) : sc ∉ [lCtrl, lAlt, lshift, rshift, caplock] := by
  have hnone : ∀ cap, ∀ sc ∈ [lCtrl, lAlt, lshift, rshift, caplock],
      (keystroke cap sc).isNone = true := by
    decide +kernel
  intro hmem
  have hk := hnone cap sc hmem
  rw [h] at hk
  cases hk

theorem keys_newline_iff {n : ℕ} (hn : n < 59) :
    keys.getD n 0 = newlineChar ↔ capKeys.getD n 0 = newlineChar := by
  revert n
  decide +kernel

/-- The handler looks for Enter in `keys` only; `cap_keys` has it at the same place. -/
theorem keyAt_newline_iff {m : Machine} {cap : Bool} {sc : UInt8} (hlt : sc.toNat < 59) :
    keyAt m sc = newlineChar ↔ tableChar cap sc = newlineChar := by
  rw [keyAt, if_pos hlt]
  cases cap with
  | false => rfl
  | true => exact keys_newline_iff hlt

/-- What the handler does to the terminal. -/
def Tty.press (y : Tty) : Keystroke → Tty
  | .char c => (y.addToBuffer c).printBuffer
  | .erase => y.backspace.printBuffer
  | .enter => { y.addToBuffer newlineChar with enterFlag := true }

/-- The key is not one of the combinations Ctrl-L and Ctrl-C. -/
def Tty.Plain (y : Tty) (sc : UInt8) : Prop :=
  ∀ k ∈ [lButton, cButton], ¬ (y.ctrlFlag = true ∧ sc = k)

theorem Tty.plain_of_up {y : Tty} (h : y.ctrlFlag = false) (sc : UInt8) : y.Plain sc := by
  rintro k - ⟨hdown, -⟩
  rw [h] at hdown
  cases hdown

theorem Tty.Plain.congr {y y' : Tty} {sc : UInt8} (h : y.Plain sc)
    (hctrl : y'.ctrlFlag = y.ctrlFlag) : y'.Plain sc := by
  rw [Tty.Plain, hctrl]
  exact h

/-- The function keys are behind the end of the tables, so Alt makes no difference. -/
theorem Kernel.keyboardHandler_keystroke {m : Machine} {fr : StackFrame} {s : Kernel} {sc : UInt8}
    {k : Keystroke} (hplain : s.tty.Plain sc) (h : keystroke s.tty.capFlag sc = some k) :
    s.keyboardHandler m fr sc = .ok (s.onTty fun y => y.press k) := by
  have hmod := keystroke_modifier h
  simp only [List.mem_cons, List.not_mem_nil, or_false, not_or] at hmod
  obtain ⟨h1, h2, h3, h4, h5⟩ := hmod
  have hle : sc.toNat < 59 → sc ≤ keyRelease := fun hlt =>
    UInt8.le_iff_toNat_le.mpr (by simp; omega)
  have hfn : sc.toNat < 59 → ∀ k ∈ [keyF1, keyF2, keyF3], ¬ (s.tty.altFlag = true ∧ sc = k) := by
    intro hlt k hk hand
    have hge : ∀ k ∈ [keyF1, keyF2, keyF3], 59 ≤ k.toNat := by decide +kernel
    have := hge k hk
    rw [← hand.2] at this
    omega
  cases keystroke_cases h with
  | erase hsc =>
    subst hsc
    rfl
  | enter hsc hlt hc =>
    rw [keyboardHandler, if_pos (hle hlt), if_pos ((keyAt_newline_iff hlt).mpr hc)]
    rfl
  | char hsc hlt hc hprint =>
    rw [keyboardHandler, if_pos (hle hlt), if_neg (mt (keyAt_newline_iff hlt).mp hc), if_neg hsc,
      if_neg h1, if_neg h2, if_neg (hfn hlt keyF1 (by simp)), if_neg (hfn hlt keyF2 (by simp)),
      if_neg (hfn hlt keyF3 (by simp)), if_neg (hplain lButton (by simp)),
      if_neg (hplain cButton (by simp)), if_neg (not_or.mpr ⟨h3, h4⟩), if_neg h5, capKeyAt, keyAt,
      if_pos hlt, if_pos hlt]
    cases s.tty.capFlag <;> rfl

/-! ## The line in the buffer -/

namespace InputLine

/-- The buffer starts with the characters of `l`. -/
structure Holds (b : InputLine) (l : List UInt8) : Prop where
  chars : ∀ k (hk : k < l.length), b.buffer k = l[k]
  printable : ∀ c ∈ l, blankSpace ≤ c
  length_le : l.length ≤ buffLen

theorem holds_nil (b : InputLine) : b.Holds [] :=
  ⟨fun k hk => absurd hk (Nat.not_lt_zero k), fun _ hc => absurd hc List.not_mem_nil, Nat.zero_le _⟩

variable {b : InputLine} {l : List UInt8}

theorem Holds.ne_newline (h : b.Holds l) {k : ℕ} (hk : k < l.length) :
    b.buffer k ≠ newlineChar := by
  rw [h.chars k hk]
  exact ne_newline_of_printable (h.printable _ (List.getElem_mem hk))

theorem Holds.echoable (h : b.Holds l) (hlen : b.len = l.length) : b.Echoable :=
  fun _ hk => h.ne_newline (hlen ▸ hk)

/-- A buffer that starts with a newline holds the empty line. -/
theorem Holds.eq_nil (h : b.Holds l) (h0 : b.buffer 0 = newlineChar) : l = [] := by
  cases l with
  | nil => rfl
  | cons c l => exact absurd h0 (h.ne_newline (Nat.zero_lt_succ _))

theorem Holds.append (h : b.Holds l) (hlt : l.length < buffLen) {c : UInt8}
    (hc : blankSpace ≤ c) {b' : InputLine}
    (hb : b'.buffer = Function.update b.buffer l.length c) : b'.Holds (l ++ [c]) where
  chars k hk := by
    rw [hb]
    by_cases hkl : k = l.length
    · subst hkl
      simp
    · have hlt' : k < l.length := by
        rw [List.length_append, List.length_singleton] at hk
        omega
      rw [Function.update_of_ne hkl, h.chars k hlt', List.getElem_append_left hlt']
  printable d hd := by
    rcases List.mem_append.mp hd with hd | hd
    · exact h.printable d hd
    · rwa [List.mem_singleton.mp hd]
  length_le := by
    rw [List.length_append, List.length_singleton]
    omega

theorem Holds.update (h : b.Holds l) {j : ℕ} (hj : l.length ≤ j) {c : UInt8} {b' : InputLine}
    (hb : b'.buffer = Function.update b.buffer j c) : b'.Holds l where
  chars k hk := by
    rw [hb, Function.update_of_ne (by omega), h.chars k hk]
  printable := h.printable
  length_le := h.length_le

theorem Holds.dropLast (h : b.Holds l) : b.Holds l.dropLast where
  chars k hk := by
    rw [List.getElem_dropLast]
    exact h.chars k (by rw [List.length_dropLast] at hk; omega)
  printable c hc := h.printable c (List.mem_of_mem_dropLast hc)
  length_le := by
    rw [List.length_dropLast]
    exact (Nat.sub_le _ _).trans h.length_le

/-- A printable character is appended while there is room. -/
theorem Holds.add (h : b.Holds l) (hlen : b.len = l.length) {c : UInt8} (hc : blankSpace ≤ c) :
    (b.add c).Holds (if l.length < buffLen then l ++ [c] else l) ∧
      (b.add c).len = (if l.length < buffLen then l ++ [c] else l).length := by
  rw [InputLine.add, hlen]
  split
  · rename_i hlt
    refine ⟨h.append hlt hc rfl, ?_⟩
    rw [List.length_append, List.length_singleton]
  · exact ⟨h, hlen⟩

theorem Holds.erase (h : b.Holds l) (hlen : b.len = l.length) :
    b.erase.Holds l.dropLast ∧ b.erase.len = l.dropLast.length := by
  rw [InputLine.erase]
  split
  · refine ⟨h.dropLast.update ?_ rfl, ?_⟩
    · rw [List.length_dropLast, hlen]
    · rw [List.length_dropLast, ← hlen]
  · rename_i hzero
    have hnil : l = [] := List.length_eq_zero_iff.mp (by omega)
    refine ⟨h.dropLast, ?_⟩
    rw [hlen, hnil]
    rfl

/-- The newline of Enter is stored behind the line if there is room. -/
theorem Holds.addNewline (h : b.Holds l) (hlen : b.len = l.length) :
    (b.add newlineChar).Holds l ∧
      (l.length < buffLen → (b.add newlineChar).buffer l.length = newlineChar) := by
  rw [InputLine.add, hlen]
  split
  · exact ⟨h.update le_rfl rfl, fun _ => Function.update_self ..⟩
  · rename_i hfull
    exact ⟨h, fun hlt => absurd hlt hfull⟩

end InputLine

/-- The copying loop from index `i` on returns the rest `l` of the line. -/
theorem Tty.readLoop_eq {b : ℕ → UInt8} {count : ℤ} (hcount : 128 < count) {l : List UInt8} :
    ∀ {n i : ℕ}, i + n = bufferMaxSize → l.length ≤ n →
      (∀ k (hk : k < l.length), b (i + k) = l[k]) → (∀ c ∈ l, blankSpace ≤ c) →
      (l.length < n → b (i + l.length) = newlineChar ∨ b (i + l.length) = 0) →
      readLoop b count n i = l := by
  induction l with
  | nil =>
    intro n i _ _ _ _ hend
    cases n with
    | zero => rfl
    | succ n =>
      have hstop := hend (Nat.succ_pos n)
      rw [List.length_nil, Nat.add_zero] at hstop
      rw [readLoop, if_neg]
      rintro ⟨-, h0, -, h10⟩
      exact hstop.elim h10 h0
  | cons c l ih =>
    intro n i hin hlen hchars hprint hend
    cases n with
    | zero => exact absurd hlen (Nat.not_succ_le_zero _)
    | succ n =>
      rw [bufferMaxSize] at hin
      have hc : b i = c := hchars 0 (Nat.zero_lt_succ _)
      have hprintc := hprint c (List.mem_cons_self)
      have hgo : (i : ℤ) < count ∧ b i ≠ 0 ∧ i < bufferMaxSize ∧ b i ≠ newlineChar := by
        refine ⟨by omega, ?_, by rw [bufferMaxSize]; omega, ?_⟩
        · exact hc ▸ ne_zero_of_printable hprintc
        · exact hc ▸ ne_newline_of_printable hprintc
      have hrest : readLoop b count n (i + 1) = l := by
        refine ih (by rw [bufferMaxSize]; omega) (by simpa using hlen) ?_ ?_ ?_
        · intro k hk
          rw [Nat.add_assoc, Nat.add_comm 1 k]
          exact hchars (k + 1) (Nat.succ_lt_succ hk)
        · exact fun d hd => hprint d (List.mem_cons_of_mem c hd)
        · intro hlt
          rw [Nat.add_assoc, Nat.add_comm 1 l.length]
          exact hend (Nat.succ_lt_succ hlt)
      rw [readLoop, if_pos hgo, hrest, hc]

/-- The reader finds the end of the line at a newline, at a NUL or at 128 characters. -/
theorem InputLine.Holds.readLoop_eq {b : InputLine} {l : List UInt8} (h : b.Holds l)
    (hend : l.length < buffLen → b.buffer l.length = newlineChar ∨ b.buffer l.length = 0)
    {count : ℤ} (hcount : 128 < count) : Tty.readLoop b.buffer count bufferMaxSize 0 = l := by
  refine Tty.readLoop_eq hcount rfl h.length_le ?_ h.printable ?_
  · intro k hk
    rw [Nat.zero_add]
    exact h.chars k hk
  · rw [Nat.zero_add]
    exact hend

/-! ## The invariant -/

/-- Either every finished line has been returned and the buffer holds the line being
typed, or one finished line waits in the buffer. -/
inductive LinePhase (t : Typed) (returned : List (List UInt8)) (b : InputLine) : Prop
  | typing (henter : b.enter = false) (hlines : t.lines = returned) (hold : b.Holds t.current)
      (hlen : b.len = t.current.length)
  | waiting (l : List UInt8) (henter : b.enter = true)
      (hlines : t.lines = returned ++ [l ++ [newlineChar]]) (hcurrent : t.current = [])
      (hold : b.Holds l)
      (hend : l.length < buffLen → b.buffer l.length = newlineChar ∨ b.buffer l.length = 0)
      (hempty : b.len = 0 → l = [])

def InputLine.press (b : InputLine) : Keystroke → InputLine
  | .char c => b.add c
  | .erase => b.erase
  | .enter => { b.add newlineChar with enter := true }

namespace LinePhase

variable {t : Typed} {returned : List (List UInt8)} {b : InputLine}

theorem char (henter : b.enter = false) (hlines : t.lines = returned) (hold : b.Holds t.current)
    (hlen : b.len = t.current.length) {c : UInt8} (hc : blankSpace ≤ c) :
    LinePhase (t.press (.char c)) returned (b.add c) := by
  have hadd := hold.add hlen hc
  have henter' : (b.add c).enter = false := by
    rw [InputLine.add]
    split <;> exact henter
  rw [Typed.press]
  split at hadd
  · rename_i hlt
    rw [if_pos hlt]
    exact .typing henter' hlines hadd.1 hadd.2
  · rename_i hfull
    rw [if_neg hfull]
    exact .typing henter' hlines hadd.1 hadd.2

theorem erase (henter : b.enter = false) (hlines : t.lines = returned) (hold : b.Holds t.current)
    (hlen : b.len = t.current.length) : LinePhase (t.press .erase) returned b.erase := by
  have herase := hold.erase hlen
  have henter' : b.erase.enter = false := by
    rw [InputLine.erase]
    split <;> exact henter
  exact .typing henter' hlines herase.1 herase.2

theorem enter (hlines : t.lines = returned) (hold : b.Holds t.current)
    (hlen : b.len = t.current.length) :
    LinePhase (t.press .enter) returned { b.add newlineChar with enter := true } := by
  have hpress : (t.press .enter).lines = returned ++ [t.current ++ [newlineChar]] := by
    rw [Typed.press, hlines]
  obtain ⟨hold', hend⟩ := hold.addNewline hlen
  refine .waiting t.current rfl hpress rfl ⟨hold'.chars, hold'.printable, hold'.length_le⟩
    (fun hlt => .inl (hend hlt)) fun hzero => ?_
  have hadd : (b.add newlineChar).len = 0 := hzero
  rw [InputLine.add] at hadd
  split at hadd
  · exact absurd hadd (Nat.succ_ne_zero _)
  · exact List.length_eq_zero_iff.mp (hlen ▸ hadd)

theorem echoable (h : LinePhase t returned b) (hkey : b.enter = false ∨ b.len = 0) :
    b.Echoable := by
  cases h with
  | typing henter hlines hold hlen => exact hold.echoable hlen
  | waiting l henter =>
    rcases hkey with hkey | hkey
    · exact absurd (henter.symm.trans hkey) (by decide)
    · intro k hk
      omega

/-- Emptying the buffer destroys nothing while it holds nothing. -/
theorem cleared (h : LinePhase t returned b) (hnone : b.len = 0 ∨ b.buffer 0 = newlineChar) :
    LinePhase t returned b.cleared := by
  cases h with
  | typing henter hlines hold hlen =>
    have hnil : t.current = [] := by
      rcases hnone with hzero | h0
      · exact List.length_eq_zero_iff.mp (hlen ▸ hzero)
      · exact hold.eq_nil h0
    refine .typing henter hlines ?_ ?_
    · rw [hnil]
      exact InputLine.holds_nil _
    · rw [hnil]
      rfl
  | waiting l henter hlines hcurrent hold hend hempty =>
    have hnil : l = [] := hnone.elim hempty hold.eq_nil
    subst hnil
    exact .waiting [] henter hlines hcurrent (InputLine.holds_nil _) (fun _ => .inr rfl)
      fun _ => rfl

/-- Returning the waiting line starts a new one. -/
theorem returned_cleared {l : List UInt8} (hlines : t.lines = returned ++ [l ++ [newlineChar]])
    (hcurrent : t.current = []) :
    LinePhase t (returned ++ [l ++ [newlineChar]]) { b.cleared with enter := false } := by
  refine .typing rfl hlines ?_ ?_
  · rw [hcurrent]
    exact InputLine.holds_nil _
  · rw [hcurrent]
    rfl

/-- A keystroke is taken over while no line waits. -/
theorem press (h : LinePhase t returned b) {k : Keystroke} (hk : ∀ c, k = .char c → blankSpace ≤ c)
    (hkey : b.enter = false ∨ k = .erase ∧ b.len = 0) :
    LinePhase (t.press k) returned (b.press k) := by
  cases h with
  | typing henter hlines hold hlen =>
    cases k with
    | char c => exact char henter hlines hold hlen (hk c rfl)
    | erase => exact erase henter hlines hold hlen
    | enter => exact enter hlines hold hlen
  | waiting l henter hlines hcurrent hold hend hempty =>
    rcases hkey with hkey | ⟨rfl, hzero⟩
    · exact absurd (henter.symm.trans hkey) (by decide)
    · have herase : b.erase = b := if_neg (by omega)
      have hcurrent' : (t.press .erase).current = [] := by
        rw [Typed.press, hcurrent]
        rfl
      rw [InputLine.press, herase]
      exact .waiting l henter hlines hcurrent' hold hend hempty

theorem len_le (h : LinePhase t returned b) (hkey : b.enter = false ∨ b.len = 0) :
    b.len ≤ buffLen := by
  cases h with
  | typing henter hlines hold hlen => exact hlen ▸ hold.length_le
  | waiting l henter =>
    rcases hkey with hkey | hkey
    · exact absurd (henter.symm.trans hkey) (by decide)
    · exact hkey ▸ Nat.zero_le _

end LinePhase

/-! ## One event -/

def InputLine.modifiers (b : InputLine) : Bool × Bool × Bool := (b.ctrl, b.alt, b.cap)

theorem InputLine.modifiers_press (b : InputLine) (k : Keystroke) :
    (b.press k).modifiers = b.modifiers := by
  cases k with
  | char c => exact (apply_ite modifiers _ _ _).trans (ite_self _)
  | erase => exact (apply_ite modifiers _ _ _).trans (ite_self _)
  | enter =>
    change (b.add newlineChar).modifiers = _
    exact (apply_ite modifiers _ _ _).trans (ite_self _)

theorem Tty.input_press {y : Tty} {k : Keystroke} (hecho : y.input.Echoable)
    (hlen : y.curLen ≤ buffLen) (hk : ∀ c, k = .char c → blankSpace ≤ c) :
    (y.press k).input = y.input.press k := by
  cases k with
  | char c =>
    have hadd : (y.addToBuffer c).input.Echoable := by
      rw [input_addToBuffer]
      exact hecho.add (ne_newline_of_printable (hk c rfl))
    exact (input_printBuffer hadd).trans (input_addToBuffer y c)
  | erase =>
    have hback := input_backspace (fun k hk => hecho k (Nat.lt_of_succ_lt hk)) hlen
    have hrest : y.backspace.input.Echoable := hback ▸ hecho.erase
    exact (input_printBuffer hrest).trans hback
  | enter =>
    change { (y.addToBuffer newlineChar).input with enter := true } = _
    rw [input_addToBuffer]
    rfl

/-- The driver agrees with the line editor, and Ctrl and Alt are up. -/
structure LineInv (cap : Bool) (t : Typed) (returned : List (List UInt8)) (y : Tty) : Prop where
  modifiers : y.input.modifiers = (false, false, cap)
  phase : LinePhase t returned y.input

namespace LineInv

variable {cap : Bool} {t : Typed} {returned : List (List UInt8)} {y : Tty}

theorem ctrl (h : LineInv cap t returned y) : y.ctrlFlag = false := congrArg Prod.fst h.modifiers

theorem cap_eq (h : LineInv cap t returned y) : y.capFlag = cap :=
  congrArg (fun p => p.2.2) h.modifiers

theorem press (h : LineInv cap t returned y) {sc : UInt8} {k : Keystroke}
    (hk : keystroke cap sc = some k) (hsafe : y.Safe (.key sc)) :
    LineInv cap (t.press k) returned (y.press k) := by
  have hchar : ∀ c, k = .char c → blankSpace ≤ c := by
    rintro c rfl
    cases keystroke_cases hk with
    | char hsc hlt hc hprint => exact hprint
  have hkey : y.input.enter = false ∨ k = .erase ∧ y.input.len = 0 := by
    rcases hsafe with hsafe | ⟨rfl, hzero⟩
    · exact .inl hsafe
    · cases hk
      exact .inr ⟨rfl, hzero⟩
  have hidle : y.input.enter = false ∨ y.input.len = 0 := hkey.imp_right And.right
  have hinput := Tty.input_press (h.phase.echoable hidle) (h.phase.len_le hidle) hchar
  refine ⟨?_, ?_⟩
  · rw [hinput, InputLine.modifiers_press, h.modifiers]
  · rw [hinput]
    exact h.phase.press hchar hkey

/-- Program output, as a whole call or byte by byte. -/
theorem output (h : LineInv cap t returned y) {y' : Tty} {p : Prop} [Decidable p]
    (hy : y'.input = if p then y.input.cleared else y.input) (hsafe : p → y.NothingTyped) :
    LineInv cap t returned y' := by
  split at hy
  · rename_i hp
    refine ⟨?_, ?_⟩
    · rw [hy]
      exact h.modifiers
    · rw [hy]
      exact h.phase.cleared (hsafe hp)
  · refine ⟨?_, ?_⟩
    · rw [hy, h.modifiers]
    · rw [hy]
      exact h.phase

theorem read (h : LineInv cap t returned y) {count : ℤ} (hcount : 128 < count)
    (henter : y.enterFlag = true) :
    ∃ line y', y.terminalRead count = .ok (line, y') ∧ t.lines = returned ++ [line] ∧
      LineInv cap t (returned ++ [line]) y' := by
  cases h.phase with
  | typing henter' => exact absurd (henter.symm.trans henter') (by decide)
  | waiting l _ hlines hcurrent hold hend =>
    have hread : Tty.readLoop y.curBuffer count bufferMaxSize 0 = l := hold.readLoop_eq hend hcount
    refine ⟨l ++ [newlineChar], { y.newLine true with enterFlag := false }, ?_, hlines, ?_⟩
    · rw [Tty.terminalRead, if_pos henter, hread]
    · have hinput : ({ y.newLine true with enterFlag := false } : Tty).input =
          { y.input.cleared with enter := false } := by
        rw [← y.input_newLine]
        rfl
      refine ⟨?_, ?_⟩
      · rw [hinput]
        exact h.modifiers
      · rw [hinput]
        exact .returned_cleared hlines hcurrent

end LineInv

namespace Kernel

variable {m : Machine} {fr : StackFrame} {s₀ s s' : Kernel} {cap : Bool} {t : Typed}
  {returned out : List (List UInt8)}

/-- Every event that meets the condition keeps the invariant. -/
theorem inputStep_inv (h : LineInv cap t returned s.tty) {e : InputEvent}
    (hadm : e.Admissible cap) (hsafe : s.tty.Safe e)
    (hstep : s.inputStep m fr e = .ok (out, s')) :
    LineInv cap (t.event cap e) (returned ++ out) s'.tty := by
  cases e with
  | key sc =>
    obtain ⟨k, hk⟩ := Option.isSome_iff_exists.mp hadm
    have hk' : keystroke s.tty.capFlag sc = some k := h.cap_eq.symm ▸ hk
    rw [inputStep, keyboardHandler_keystroke (Tty.plain_of_up h.ctrl sc) hk', ok_bind] at hstep
    cases hstep
    rw [Typed.event, hk, List.append_nil]
    exact h.press hk hsafe
  | write buf count =>
    cases hstep
    rw [List.append_nil]
    exact h.output (s.tty.input_terminalWrite buf count) hsafe
  | putByte c =>
    cases hstep
    rw [List.append_nil]
    refine h.output (p := c = newlineChar) ?_ hsafe
    split
    · rename_i hc
      rw [hc]
      exact s.tty.input_putch_newline
    · rename_i hc
      exact s.tty.input_putch hc
  | read count =>
    obtain ⟨⟨line, y⟩, hread, hret⟩ := bind_eq_ok.mp hstep
    cases hret
    have henter : s.tty.enterFlag = true := by
      unfold Tty.terminalRead at hread
      split at hread
      · assumption
      · cases hread
    obtain ⟨line', y', hread', -, hinv⟩ := h.read hadm henter
    rw [hread] at hread'
    cases hread'
    exact hinv

theorem LineRun.inv {events : List InputEvent} (h₀ : LineStart s₀)
    (h : LineRun m fr Tty.Safe s₀ events returned s) :
    LineInv s₀.tty.capFlag (typedBy s₀.tty.capFlag events) returned s.tty := by
  induction h with
  | start =>
    refine ⟨?_, .typing h₀.enter rfl (InputLine.holds_nil _) h₀.len⟩
    change (s₀.tty.ctrlFlag, s₀.tty.altFlag, s₀.tty.capFlag) = _
    rw [h₀.ctrl, h₀.alt]
  | step _ hadm hok hstep ih =>
    rw [typedBy_append]
    exact inputStep_inv ih hadm hok hstep

/-- In every run the lines returned are the lines typed, in their order, except that
the last one may still wait: then the next read returns it, and otherwise a read
blocks. Every key press is handled. -/
theorem typed_lines_delivered {events : List InputEvent} (h₀ : LineStart s₀)
    (h : LineRun m fr Tty.Safe s₀ events returned s) :
    (((typedBy s₀.tty.capFlag events).lines = returned ∧
        ∀ count, s.tty.terminalRead count = .error .blocked) ∨
      ∃ line, (typedBy s₀.tty.capFlag events).lines = returned ++ [line] ∧
        ∀ count, 128 < count → ∃ y, s.tty.terminalRead count = .ok (line, y)) ∧
    ∀ sc, (keystroke s₀.tty.capFlag sc).isSome → ∃ s', s.keyboardHandler m fr sc = .ok s' := by
  have hinv := h.inv h₀
  refine ⟨?_, ?_⟩
  · cases hphase : s.tty.enterFlag with
    | false =>
      left
      cases hinv.phase with
      | typing henter hlines =>
        refine ⟨hlines, fun count => ?_⟩
        rw [Tty.terminalRead, hphase]
        rfl
      | waiting l henter => exact absurd (henter.symm.trans hphase) (by decide)
    | true =>
      right
      have hbig : (128 : ℤ) < 129 := by decide
      obtain ⟨line, -, -, hlines, -⟩ := hinv.read hbig hphase
      refine ⟨line, hlines, fun count hcount => ?_⟩
      obtain ⟨line', y, hread, hlines', -⟩ := hinv.read hcount hphase
      have hline : line' = line := by
        have heq := hlines'.symm.trans hlines
        simpa using heq
      exact ⟨y, hline ▸ hread⟩
  · intro sc hsc
    obtain ⟨k, hk⟩ := Option.isSome_iff_exists.mp hsc
    exact ⟨_, keyboardHandler_keystroke (Tty.plain_of_up hinv.ctrl sc) (hinv.cap_eq.symm ▸ hk)⟩

theorem LineRun.press {ok : Tty → InputEvent → Prop} {events : List InputEvent}
    (h : LineRun m fr ok s₀ events returned s) {sc : UInt8} {k : Keystroke}
    (hk : keystroke s₀.tty.capFlag sc = some k) (hok : ok s.tty (.key sc))
    (hmod : s.tty.input.modifiers = (false, false, s₀.tty.capFlag)) :
    LineRun m fr ok s₀ (events ++ [.key sc]) returned (s.onTty fun y => y.press k) := by
  have hcap : s.tty.capFlag = s₀.tty.capFlag := congrArg (fun p => p.2.2) hmod
  have hhandler : s.keyboardHandler m fr sc = .ok (s.onTty fun y => y.press k) :=
    keyboardHandler_keystroke (Tty.plain_of_up (congrArg Prod.fst hmod) sc) (hcap.symm ▸ hk)
  have hadm : InputEvent.Admissible s₀.tty.capFlag (.key sc) := Option.isSome_of_mem hk
  have hstep : s.inputStep m fr (.key sc) = .ok ([], s.onTty fun y => y.press k) := by
    rw [inputStep, hhandler, ok_bind]
    rfl
  simpa using h.step hadm hok hstep

theorem bootKernel_lineStart : LineStart bootKernel := ⟨rfl, rfl, rfl, rfl⟩

/-- The line "a" is typed and waits for its reader. -/
theorem typed_line_waits : ∃ s, LineRun shellMachine blankFrame Tty.Safe bootKernel
      [.key 0x1E, .key 0x1C] [] s ∧ ∃ y, s.tty.terminalRead 129 = .ok ([97, 10], y) := by
  have h1 : LineRun shellMachine blankFrame Tty.Safe bootKernel [.key 0x1E] [] _ :=
    LineRun.start.press (k := .char 97) (by decide +kernel) (.inl rfl) rfl
  have h2 : LineRun shellMachine blankFrame Tty.Safe bootKernel [.key 0x1E, .key 0x1C] [] _ :=
    h1.press (k := .enter) (by decide +kernel) (.inl (by decide +kernel)) (by decide +kernel)
  obtain ⟨hlines | ⟨line, hlines, hread⟩, -⟩ := typed_lines_delivered bootKernel_lineStart h2
  · exact absurd hlines.1 (by decide +kernel)
  · have hline : line = [97, 10] := by
      have htyped : (typedBy false [.key 0x1E, .key 0x1C]).lines = [[97, 10]] := by decide +kernel
      rw [show bootKernel.tty.capFlag = false from rfl, htyped] at hlines
      simpa using hlines.symm
    exact ⟨_, h2, hline ▸ hread 129 (by decide)⟩

/-- Two lines are typed before the first is read. The echo of the second one's first
character prints the newline that ends the first line and so empties the buffer: the
read returns an empty line. -/
theorem typed_ahead_line_lost : LineStart bootKernel ∧
    ∃ s, LineRun shellMachine blankFrame (fun _ _ => True) bootKernel
        [.key 0x1E, .key 0x1C, .key 0x30, .key 0x1C, .read 129] [[10]] s ∧
      (typedBy bootKernel.tty.capFlag
        [.key 0x1E, .key 0x1C, .key 0x30, .key 0x1C, .read 129]).lines = [[97, 10], [98, 10]] ∧
      ¬ [[10]] <+: [[97, 10], [98, 10]] := by
  have h1 : LineRun shellMachine blankFrame (fun _ _ => True) bootKernel [.key 0x1E] [] _ :=
    LineRun.start.press (k := .char 97) (by decide +kernel) trivial rfl
  have h2 : LineRun shellMachine blankFrame (fun _ _ => True) bootKernel
      [.key 0x1E, .key 0x1C] [] _ :=
    h1.press (k := .enter) (by decide +kernel) trivial (by decide +kernel)
  have h3 : LineRun shellMachine blankFrame (fun _ _ => True) bootKernel
      [.key 0x1E, .key 0x1C, .key 0x30] [] _ :=
    h2.press (k := .char 98) (by decide +kernel) trivial (by decide +kernel)
  have h4 : LineRun shellMachine blankFrame (fun _ _ => True) bootKernel
      [.key 0x1E, .key 0x1C, .key 0x30, .key 0x1C] [] _ :=
    h3.press (k := .enter) (by decide +kernel) trivial (by decide +kernel)
  let y := [Keystroke.char 97, .enter, .char 98, .enter].foldl Tty.press blankTty
  have hread : y.terminalRead 129 = .ok ([10], { y.newLine true with enterFlag := false }) := by
    have henter : y.enterFlag = true := by decide +kernel
    have hloop : Tty.readLoop y.curBuffer 129 bufferMaxSize 0 = [] := by decide +kernel
    rw [Tty.terminalRead, if_pos henter, hloop]
    rfl
  have hcount : (128 : ℤ) < 129 := by decide
  have h5 := h4.step (e := .read 129) hcount trivial (bind_eq_ok.mpr ⟨_, hread, rfl⟩)
  exact ⟨bootKernel_lineStart, _, h5, by decide +kernel, by decide⟩

end Kernel
end KudOS
