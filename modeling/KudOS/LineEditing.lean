import KudOS.LineDiscipline

/-!
# Editing one line

The keys of one line, with Shift and Caps Lock pressed and released in between. What a
key stores depends on `cap_flag` at this moment, so the editor keeps the flag together
with the line.
-/

namespace KudOS

@[simp] def caplockRelease : UInt8 := 0xBA

/-- The scan code whose entry in both tables is a newline. -/
@[simp] def enterCode : UInt8 := 0x1C

/-- Keys that turn `cap_flag` over. -/
def toggleCodes : List UInt8 := [lshift, rshift, caplock, lshiftRelease, rshiftRelease]

/-- Both tables have a printable character for the scan code. -/
structure PrintableKey (sc : UInt8) : Prop where
  lt : sc.toNat < 59
  keys : blankSpace ≤ keys.getD sc.toNat 0
  capKeys : blankSpace ≤ capKeys.getD sc.toNat 0

instance (sc : UInt8) : Decidable (PrintableKey sc) :=
  decidable_of_iff (sc.toNat < 59 ∧ blankSpace ≤ KudOS.keys.getD sc.toNat 0 ∧
    blankSpace ≤ KudOS.capKeys.getD sc.toNat 0)
    ⟨fun h => ⟨h.1, h.2.1, h.2.2⟩, fun h => ⟨h.lt, h.keys, h.capKeys⟩⟩

/-- The keys of one line before Enter. -/
inductive EditKey (sc : UInt8) : Prop where
  | printable (h : PrintableKey sc)
  | backspace (h : sc = backspaceCode)
  | toggle (h : sc ∈ toggleCodes)
  | caplockRelease (h : sc = caplockRelease)

/-- The line being edited and the flag that selects the table. -/
structure Edited where
  line : List UInt8
  cap : Bool

/-- A line keeps its first 128 characters; Backspace removes the last one kept. -/
def Edited.press (e : Edited) (sc : UInt8) : Edited :=
  if sc = backspaceCode then { e with line := e.line.dropLast }
  else if sc ∈ toggleCodes then { e with cap := !e.cap }
  else if sc = caplockRelease then e
  else if e.line.length < buffLen then { e with line := e.line ++ [tableChar e.cap sc] }
  else e

def Edited.presses (e : Edited) (codes : List UInt8) : Edited := codes.foldl Edited.press e

theorem Edited.presses_concat (e : Edited) (codes : List UInt8) (sc : UInt8) :
    e.presses (codes ++ [sc]) = (e.presses codes).press sc := by
  rw [presses, List.foldl_append]
  rfl

theorem PrintableKey.tableChar {sc : UInt8} (h : PrintableKey sc) (cap : Bool) :
    blankSpace ≤ tableChar cap sc := by
  cases cap with
  | false => exact h.keys
  | true => exact h.capKeys

theorem PrintableKey.ne_backspace {sc : UInt8} (h : PrintableKey sc) : sc ≠ backspaceCode := by
  rintro rfl
  exact absurd h.keys (by decide +kernel)

theorem PrintableKey.not_toggle {sc : UInt8} (h : PrintableKey sc) : sc ∉ toggleCodes := by
  have hnone : ∀ sc ∈ toggleCodes, ¬ (sc.toNat < 59 ∧ blankSpace ≤ KudOS.keys.getD sc.toNat 0) := by
    decide +kernel
  exact fun hmem => hnone sc hmem ⟨h.lt, h.keys⟩

theorem PrintableKey.ne_caplockRelease {sc : UInt8} (h : PrintableKey sc) :
    sc ≠ KudOS.caplockRelease := by
  rintro rfl
  exact absurd h.lt (by decide)

theorem PrintableKey.keystroke {sc : UInt8} (h : PrintableKey sc) (cap : Bool) :
    keystroke cap sc = some (.char (KudOS.tableChar cap sc)) := by
  have hprint := h.tableChar cap
  have hlt := h.lt
  rw [KudOS.keystroke, if_neg h.ne_backspace, if_neg (by omega),
    if_neg (ne_newline_of_printable hprint), if_pos hprint]

namespace Kernel

variable {m : Machine} {fr : StackFrame} {s s' : Kernel}

/-- The handler is run for one scan code after the other. -/
def pressAll (m : Machine) (fr : StackFrame) (s : Kernel) (codes : List UInt8) :
    Except Stop Kernel :=
  codes.foldlM (fun s sc => s.keyboardHandler m fr sc) s

/-- All keys but the last one have been handled. -/
theorem pressAll_concat {codes : List UInt8} {sc : UInt8} (h : s.pressAll m fr codes = .ok s') :
    s.pressAll m fr (codes ++ [sc]) = s'.keyboardHandler m fr sc := by
  rw [pressAll] at h ⊢
  rw [List.foldlM_append, h, ok_bind, List.foldlM_cons]
  exact bind_pure _

/-- The buffer holds the edited line. -/
structure Editing (e : Edited) (y : Tty) : Prop where
  cap : y.capFlag = e.cap
  hold : y.input.Holds e.line
  len : y.curLen = e.line.length

theorem keyboardHandler_toggle {sc : UInt8} (hsc : sc ∈ toggleCodes) :
    s.keyboardHandler m fr sc = .ok (s.onTty fun y => { y with capFlag := !y.capFlag }) := by
  have hkey : sc ≤ keyRelease → sc.toNat < 59 ∧ keys.getD sc.toNat 0 ≠ newlineChar := by
    revert sc
    decide +kernel
  have hother : ∀ sc ∈ toggleCodes, ∀ k ∈ [keyF1, keyF2, keyF3, lButton, cButton], sc ≠ k := by
    decide +kernel
  have hpass : ∀ k ∈ [keyF1, keyF2, keyF3, lButton, cButton], ∀ b : Bool, ¬ (b = true ∧ sc = k) :=
    fun k hk b hand => hother sc hsc k hk hand.2
  by_cases hle : sc ≤ keyRelease
  · rw [keyboardHandler, if_pos hle, keyAt, if_pos (hkey hle).1, if_neg (hkey hle).2,
      if_neg (hpass keyF1 (by simp) _), if_neg (hpass keyF2 (by simp) _),
      if_neg (hpass keyF3 (by simp) _), if_neg (hpass lButton (by simp) _),
      if_neg (hpass cButton (by simp) _)]
    simp only [toggleCodes, List.mem_cons, List.not_mem_nil, or_false] at hsc
    rcases hsc with rfl | rfl | rfl | rfl | rfl
    · rfl
    · rfl
    · rfl
    · exact absurd hle (by decide)
    · exact absurd hle (by decide)
  · rw [keyboardHandler, if_neg hle]
    simp only [toggleCodes, List.mem_cons, List.not_mem_nil, or_false] at hsc
    rcases hsc with rfl | rfl | rfl | rfl | rfl
    · exact absurd (by decide) hle
    · exact absurd (by decide) hle
    · exact absurd (by decide) hle
    · rfl
    · rfl

theorem Editing.keystroke_char {e : Edited} {y : Tty} {sc : UInt8} (h : Editing e y)
    (hkey : PrintableKey sc) :
    KudOS.keystroke y.capFlag sc = some (.char (tableChar e.cap sc)) := by
  rw [hkey.keystroke, h.cap]

/-- A keystroke leaves the flags alone. -/
theorem Editing.keystroke {e : Edited} {l : List UInt8} {y : Tty} {k : Keystroke}
    (h : Editing e y) (hk : ∀ c, k = .char c → blankSpace ≤ c)
    (hold : (y.input.press k).Holds l ∧ (y.input.press k).len = l.length) :
    Editing ⟨l, e.cap⟩ (y.press k) ∧ (y.press k).ctrlFlag = y.ctrlFlag := by
  have hecho := h.hold.echoable h.len
  have hinput := Tty.input_press hecho (h.len ▸ h.hold.length_le) hk
  have hmods : (y.press k).input.modifiers = y.input.modifiers := by
    rw [hinput, InputLine.modifiers_press]
  have hlen : (y.press k).input.len = l.length := by rw [hinput, hold.2]
  exact ⟨⟨(congrArg (fun p => p.2.2) hmods).trans h.cap, hinput ▸ hold.1, hlen⟩,
    congrArg Prod.fst hmods⟩

theorem Editing.press (m : Machine) (fr : StackFrame) {e : Edited} {sc : UInt8}
    (h : Editing e s.tty) (hsc : EditKey sc) (hplain : s.tty.Plain sc) :
    ∃ s', s.keyboardHandler m fr sc = .ok s' ∧ Editing (e.press sc) s'.tty ∧
      s'.tty.ctrlFlag = s.tty.ctrlFlag := by
  cases hsc with
  | printable hkey =>
    have hprint := hkey.tableChar e.cap
    have hnext := h.keystroke (k := .char (tableChar e.cap sc)) (by rintro c ⟨⟩; exact hprint)
      (h.hold.add h.len hprint)
    refine ⟨_, keyboardHandler_keystroke hplain (h.keystroke_char hkey), ?_⟩
    rw [Edited.press, if_neg hkey.ne_backspace, if_neg hkey.not_toggle,
      if_neg hkey.ne_caplockRelease]
    split at hnext
    · rename_i hlt
      rw [if_pos hlt]
      exact hnext
    · rename_i hfull
      rw [if_neg hfull]
      exact hnext
  | backspace hsc =>
    subst hsc
    have hk : KudOS.keystroke s.tty.capFlag backspaceCode = some .erase := rfl
    exact ⟨_, keyboardHandler_keystroke hplain hk,
      h.keystroke (k := .erase) (fun c hc => by cases hc) (h.hold.erase h.len)⟩
  | toggle hsc =>
    have hback : sc ≠ backspaceCode := by
      rintro rfl
      exact absurd hsc (by decide)
    refine ⟨_, keyboardHandler_toggle hsc, ?_⟩
    rw [Edited.press, if_neg hback, if_pos hsc]
    have hcap : (!s.tty.capFlag) = !e.cap := by rw [h.cap]
    exact ⟨⟨hcap, ⟨h.hold.chars, h.hold.printable, h.hold.length_le⟩, h.len⟩, rfl⟩
  | caplockRelease hsc =>
    subst hsc
    exact ⟨s, rfl, h, rfl⟩

/-- By induction on the presses. -/
theorem Editing.presses (m : Machine) (fr : StackFrame) {e : Edited} {codes : List UInt8}
    (h : Editing e s.tty)
    (hcodes : ∀ sc ∈ codes, EditKey sc) (hctrl : s.tty.ctrlFlag = false) :
    ∃ s', s.pressAll m fr codes = .ok s' ∧ Editing (e.presses codes) s'.tty ∧
      s'.tty.ctrlFlag = false := by
  induction codes generalizing s e with
  | nil => exact ⟨s, rfl, h, hctrl⟩
  | cons sc codes ih =>
    obtain ⟨s₁, hpress, h₁, hctrl₁⟩ := h.press m fr
      (hcodes sc List.mem_cons_self) (Tty.plain_of_up hctrl sc)
    obtain ⟨s₂, hrest, h₂⟩ := ih h₁ (fun sc' hsc' => hcodes sc' (List.mem_cons_of_mem sc hsc'))
      (hctrl₁.trans hctrl)
    refine ⟨s₂, ?_, h₂⟩
    rw [pressAll, List.foldlM_cons, hpress]
    exact hrest

/-- The read after Enter takes the line and leaves an empty buffer. -/
theorem Editing.read {e : Edited} {y : Tty} (h : Editing e y) {count : ℤ} (hcount : 128 < count) :
    ∃ y', (y.press .enter).terminalRead count = .ok (e.line ++ [newlineChar], y') ∧
      y'.curLen = 0 ∧ (∀ k < buffLen, y'.curBuffer k = 0) ∧ y'.enterFlag = false := by
  obtain ⟨hold, hend⟩ := h.hold.addNewline h.len
  rw [← Tty.input_addToBuffer] at hold hend
  have hread := hold.readLoop_eq (fun hlt => .inl (hend hlt)) hcount
  have hclear := (y.press .enter).input_newLine
  have hlen : ((y.press .enter).newLine true).curLen = 0 := congrArg InputLine.len hclear
  refine ⟨{ (y.press .enter).newLine true with enterFlag := false }, ?_, hlen, fun k hk => ?_, rfl⟩
  · have henter : (y.press .enter).enterFlag = true := rfl
    rw [Tty.terminalRead, if_pos henter, ← hread]
    rfl
  · have hbuf := congrFun (congrArg InputLine.buffer hclear) k
    exact hbuf.trans (if_pos hk)

/-- Nothing has been typed, and Ctrl is up. A finished line may be waiting, and Alt may be
down: it makes no difference to the keys of a line. -/
structure EditStart (s : Kernel) : Prop where
  len : s.tty.curLen = 0
  ctrl : s.tty.ctrlFlag = false

theorem edited_start (h : EditStart s) : Editing ⟨[], s.tty.capFlag⟩ s.tty :=
  ⟨rfl, InputLine.holds_nil _, h.len⟩

/-- Enter is handled as the keystroke. -/
theorem keyboardHandler_enter (hctrl : s.tty.ctrlFlag = false) :
    s.keyboardHandler m fr enterCode = .ok (s.onTty fun y => y.press .enter) := by
  have hk : ∀ cap, KudOS.keystroke cap enterCode = some .enter := by decide +kernel
  exact keyboardHandler_keystroke (Tty.plain_of_up hctrl _) (hk _)

/-- Whatever keys of a line are pressed, in any order, and Enter after them: the read
that follows returns the edited line with a newline, and empties the buffer. -/
theorem edited_line_read (h : EditStart s) {codes : List UInt8}
    (hcodes : ∀ sc ∈ codes, EditKey sc) :
    ∃ s', s.pressAll m fr (codes ++ [enterCode]) = .ok s' ∧ ∀ count, 128 < count → ∃ line y,
      s'.tty.terminalRead count = .ok (line, y) ∧
      line = (Edited.presses ⟨[], s.tty.capFlag⟩ codes).line ++ [newlineChar] ∧
      line.length = (Edited.presses ⟨[], s.tty.capFlag⟩ codes).line.length + 1 ∧
      y.curLen = 0 ∧ (∀ k < buffLen, y.curBuffer k = 0) ∧ y.enterFlag = false := by
  obtain ⟨s₁, hpress, h₁, hctrl⟩ := (edited_start h).presses m fr hcodes h.ctrl
  refine ⟨_, (pressAll_concat hpress).trans (keyboardHandler_enter hctrl), fun count hcount => ?_⟩
  obtain ⟨y, hread, hlen, hbuf, hflag⟩ := h₁.read hcount
  exact ⟨_, y, hread, rfl, List.length_append, hlen, hbuf, hflag⟩

/-- Shift down, "a", Shift up, "b", "c", Backspace. -/
theorem edited_line_example : ∃ s', bootKernel.pressAll shellMachine blankFrame
      ([0x2A, 0x1E, 0xAA, 0x30, 0x2E, 0x0E] ++ [enterCode]) = .ok s' ∧
    ∃ y, s'.tty.terminalRead 129 = .ok ([65, 98, 10], y) := by
  have hcodes : ∀ sc ∈ ([0x2A, 0x1E, 0xAA, 0x30, 0x2E, 0x0E] : List UInt8), EditKey sc := by
    intro sc hsc
    simp only [List.mem_cons, List.not_mem_nil, or_false] at hsc
    rcases hsc with rfl | rfl | rfl | rfl | rfl | rfl
    · exact .toggle (by decide)
    · exact .printable (by decide +kernel)
    · exact .toggle (by decide)
    · exact .printable (by decide +kernel)
    · exact .printable (by decide +kernel)
    · exact .backspace rfl
  obtain ⟨s', hpress, hread⟩ :=
    @edited_line_read shellMachine blankFrame bootKernel ⟨rfl, rfl⟩ _ hcodes
  obtain ⟨line, y, hline, heq, -⟩ := hread 129 (by decide)
  have hedit : (Edited.presses ⟨[], bootKernel.tty.capFlag⟩
      [0x2A, 0x1E, 0xAA, 0x30, 0x2E, 0x0E]).line ++ [newlineChar] = [65, 98, 10] := by
    decide +kernel
  rw [heq, hedit] at hline
  exact ⟨s', hpress, y, hline⟩

end Kernel
end KudOS
