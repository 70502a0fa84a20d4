import KudOS.LineEditing
import KudOS.TerminalBounds

/-!
# The hardware cursor

The logical cursor is assigned in many places, the VGA registers in `move_csr` only. An
operation leaves the two in agreement if its last assignment is followed by `move_csr`.
`print_buffer` of an empty buffer is not: it goes back to the anchor of the input line
and returns.
-/

namespace KudOS

namespace Tty

variable {s : Tty}

/-- The registers hold the position of the logical cursor. -/
def CursorShown (s : Tty) : Prop :=
  (s.cursorHigh.toNat * 256 + s.cursorLow.toNat : ℤ) = s.curY * 80 + s.curX

instance (s : Tty) : Decidable s.CursorShown := inferInstanceAs (Decidable (_ = _))

theorem moveCsr_shown (h : s.OnScreen) : s.moveCsr.CursorShown := by
  have hpos := pos_eq h
  have hlt := pos_lt h
  have hloc : ((s.curY * width + s.curX) % wordSize).toNat = s.pos := by
    rw [width, wordSize]
    omega
  have hhigh : s.moveCsr.cursorHigh = (s.pos >>> 8).toUInt8 := by rw [← hloc]; rfl
  have hlow : s.moveCsr.cursorLow = s.pos.toUInt8 := by rw [← hloc]; rfl
  rw [CursorShown, hhigh, hlow, curX_moveCsr, curY_moveCsr, ← hpos]
  simp only [Nat.shiftRight_eq_div_pow, Nat.toUInt8, UInt8.toNat_ofNat']
  omega

/-- Every byte but NUL is followed by `move_csr`. -/
theorem putch_shown (h : s.Bounded) {c : UInt8} (hc : c ≠ 0) : (s.putch c).CursorShown := by
  have hx := h.x_nonneg
  have hlt := h.x_lt
  have hres := putch_cases h.toOnScreen c
  generalize s.putch c = s' at hres ⊢
  cases hres with
  | newline hc =>
    exact moveCsr_shown (((nextRow_onScreen h.toOnScreen).setLineY _).clearBuffer)
  | inner hc hx => exact moveCsr_shown ((h.store c).setX (by omega) hx).toOnScreen
  | edge hc hx => exact moveCsr_shown (nextRow_onScreen (h.store c).toOnScreen)
  | backward hc hx => exact moveCsr_shown (backward_onScreen h.toOnScreen hx)
  | stay hc h0 => exact moveCsr_shown h.toOnScreen
  | nul h0 => exact absurd h0 hc

theorem putch_keeps_shown (h : s.Bounded) (hs : s.CursorShown) (c : UInt8) :
    (s.putch c).CursorShown := by
  by_cases h0 : c = 0
  · rw [h0]
    exact hs
  · exact putch_shown h h0

/-- Printing a line that has a character shows the cursor. -/
theorem printBuffer_shown (h : s.Bounded) (hlen : 0 < s.curLen) (h0 : s.curBuffer 0 ≠ 0) :
    s.printBuffer.CursorShown := by
  have hfirst := h.anchor
  obtain ⟨n, hn⟩ : ∃ n, s.curLen = n + 1 := ⟨s.curLen - 1, by omega⟩
  change (printLoop s.curLen 0 ((s.setY s.curLineY).setX s.curLineBeginning)).CursorShown
  rw [hn, printLoop]
  change (if 0 < s.curLen then _ else _ : Tty).CursorShown
  rw [if_pos hlen]
  have hrest := printLoop_keeps (P := fun s => s.Bounded ∧ s.CursorShown)
    (fun h c => ⟨h.1.putch c, putch_keeps_shown h.1 h.2 c⟩)
    ⟨hfirst.putch _, putch_shown hfirst h0⟩ n 1
  exact hrest.2

/-- Printing an empty line goes back to the anchor. -/
theorem printBuffer_of_empty (h : s.curLen = 0) :
    s.printBuffer = (s.setY s.curLineY).setX s.curLineBeginning := by
  change printLoop s.curLen 0 ((s.setY s.curLineY).setX s.curLineBeginning) = _
  rw [h]
  rfl

theorem clearScreen_shown (h : s.Bounded) : s.clearScreen.CursorShown :=
  moveCsr_shown ((((h.video _).clearBuffer.setX le_rfl (by decide)).setY le_rfl
    (by decide)).setLineY le_rfl (by decide)).toOnScreen

theorem terminalWrite_shown (h : s.Bounded) (hs : s.CursorShown) (buf : Option (ℕ → UInt8))
    (count : ℤ) : (s.terminalWrite buf count).2.CursorShown := by
  cases buf with
  | none => exact hs
  | some b =>
    have htext := h.text ((List.range count.toNat).map b)
    rw [terminalWrite_eq]
    exact moveCsr_shown ((htext.setLineBeginning htext.x_nonneg htext.x_lt).setLineY
      htext.y_nonneg htext.y_lt).toOnScreen

theorem newLine_shown (h : s.Bounded) : (s.newLine true).CursorShown := by
  have hshown := moveCsr_shown (nextRow_onScreen h.toOnScreen)
  have hline : s.newLine true = (s.nextRow.moveCsr.setLineY s.nextRow.moveCsr.curY).clearBuffer := rfl
  rw [hline]
  generalize s.nextRow.moveCsr = s' at hshown ⊢
  exact hshown

theorem addToBuffer_shown (hs : s.CursorShown) (c : UInt8) : (s.addToBuffer c).CursorShown := by
  rw [addToBuffer]
  split
  · exact hs
  · exact hs

/-- Printing an empty line shows the cursor if it has not left the anchor. -/
theorem printBuffer_anchored (hs : s.CursorShown) (h : s.curLen = 0)
    (hx : s.curX = s.curLineBeginning) (hy : s.curY = s.curLineY) : s.printBuffer.CursorShown := by
  rw [printBuffer_of_empty h, CursorShown, curX_setX, curY_setX, curY_setY, ← hx, ← hy]
  exact hs

/-- Ctrl-L goes to the first row, but to the column of the anchor. -/
theorem clearScreen_printBuffer_shown (h : s.Bounded) (h0 : s.curLineBeginning = 0) :
    s.clearScreen.printBuffer.CursorShown := by
  have hlen : s.clearScreen.curLen = 0 := Function.update_self ..
  have hx : s.clearScreen.curX = 0 := Function.update_self ..
  have hy : s.clearScreen.curY = 0 := Function.update_self ..
  have hline : s.clearScreen.curLineY = 0 := Function.update_self ..
  exact printBuffer_anchored (clearScreen_shown h) hlen (hx.trans h0.symm) (hy.trans hline.symm)

end Tty

/-! ## The buffer holds no NUL -/

/-- No character of the line is NUL, so that printing it moves the cursor. -/
def InputLine.NoNul (b : InputLine) : Prop := ∀ k < b.len, b.buffer k ≠ 0

theorem InputLine.noNul_cleared (b : InputLine) : b.cleared.NoNul :=
  fun k hk => absurd hk (Nat.not_lt_zero k)

namespace Tty

variable {s : Tty}

theorem noNul_putch (h : s.input.NoNul) (c : UInt8) : (s.putch c).input.NoNul := by
  by_cases hc : c = newlineChar
  · rw [hc, input_putch_newline]
    exact InputLine.noNul_cleared _
  · rw [input_putch s hc]
    exact h

theorem noNul_printBuffer (h : s.input.NoNul) : s.printBuffer.input.NoNul :=
  printLoop_keeps (P := fun s => s.input.NoNul) (fun h c => noNul_putch h c)
    (s := (s.setY s.curLineY).setX s.curLineBeginning) h _ 0

theorem noNul_terminalWrite (h : s.input.NoNul) (buf : Option (ℕ → UInt8)) (count : ℤ) :
    (s.terminalWrite buf count).2.input.NoNul := by
  rw [input_terminalWrite]
  split
  · exact InputLine.noNul_cleared _
  · exact h

theorem noNul_clearScreen (s : Tty) : s.clearScreen.input.NoNul := by
  have hlen : s.clearScreen.input.len = 0 := Function.update_self ..
  intro k hk
  omega

/-! ## The invariant -/

/-- The variables of all terminals are in their ranges, no buffer holds NUL, and the
registers agree with the cursor of the active terminal. -/
structure CursorInv (y : Tty) : Prop where
  inBounds : y.AllInBounds
  chars : ∀ t, ∀ k < y.bufferLen t, y.terminalBuffer (rowStart t + k) ≠ 0
  shown : y.CursorShown

namespace CursorInv

variable {y : Tty}

theorem noNul (h : y.CursorInv) : y.input.NoNul := h.chars y.currTerminal

theorem apply (h : y.CursorInv) {f : Tty → Tty} (hf : focus.LocalAt f y) (hb : (f y).Bounded)
    (hn : (f y).input.NoNul) (hs : (f y).CursorShown) : (f y).CursorInv := by
  refine ⟨h.inBounds.apply hf hb, fun t => ?_, hs⟩
  have hactive : (f y).currTerminal = y.currTerminal := hf.active
  by_cases ht : t = y.currTerminal
  · rw [ht, ← hactive]
    exact hn
  · have hview : (f y).view t = y.view t := hf.frame t ht
    have hlen : (f y).bufferLen t = y.bufferLen t := congrArg TermView.bufferLen hview
    rw [hlen]
    intro k hk
    have hfit : k < buffLen := hk.trans_le (h.inBounds t).bufferLen
    have hbuf : (f y).terminalBuffer (rowStart t + k) = y.terminalBuffer (rowStart t + k) :=
      congrFun (congrArg TermView.terminalBuffer hview) ⟨k, hfit⟩
    rw [hbuf]
    exact h.chars t k hk

theorem terminalWrite (h : y.CursorInv) (buf : Option (ℕ → UInt8)) (count : ℤ) :
    (y.terminalWrite buf count).2.CursorInv :=
  h.apply (local_terminalWrite buf count y) (h.inBounds.bounded.terminalWrite buf count)
    (noNul_terminalWrite h.noNul buf count) (terminalWrite_shown h.inBounds.bounded h.shown buf count)

theorem clearScreen (h : y.CursorInv) : y.clearScreen.CursorInv :=
  h.apply (local_clearScreen y) h.inBounds.bounded.clearScreen (noNul_clearScreen y)
    (clearScreen_shown h.inBounds.bounded)

theorem newLine (h : y.CursorInv) : (y.newLine true).CursorInv := by
  refine h.apply (local_newLine true y) (h.inBounds.bounded.newLine true) ?_
    (newLine_shown h.inBounds.bounded)
  rw [input_newLine]
  exact InputLine.noNul_cleared _

theorem addToBuffer (h : y.CursorInv) {c : UInt8} (hc : c ≠ 0) : (y.addToBuffer c).CursorInv := by
  have hn : (y.addToBuffer c).input.NoNul := by
    rw [input_addToBuffer]
    exact InputLine.add_ne h.noNul hc
  exact h.apply (f := fun y => y.addToBuffer c) (local_addToBuffer c y)
    (h.inBounds.bounded.addToBuffer c) hn (addToBuffer_shown h.shown c)

theorem printBuffer (h : y.CursorInv) (hlen : 0 < y.curLen) : y.printBuffer.CursorInv :=
  h.apply (localAt_printBuffer h.inBounds.bounded.len_le) h.inBounds.bounded.printBuffer
    (noNul_printBuffer h.noNul) (printBuffer_shown h.inBounds.bounded hlen (h.noNul 0 hlen))

theorem char (h : y.CursorInv) {c : UInt8} (hc : c ≠ 0) :
    (y.addToBuffer c).printBuffer.CursorInv := by
  refine (h.addToBuffer hc).printBuffer ?_
  rw [Tty.addToBuffer]
  split
  · rw [curLen_setLen]
    exact Nat.succ_pos _
  · rename_i hfull
    rw [buffLen] at hfull
    omega

theorem clearKey (h : y.CursorInv) (h0 : y.curLineBeginning = 0) :
    y.clearScreen.printBuffer.CursorInv :=
  h.clearScreen.apply (localAt_printBuffer h.clearScreen.inBounds.bounded.len_le)
    h.clearScreen.inBounds.bounded.printBuffer
    (noNul_printBuffer h.clearScreen.noNul) (clearScreen_printBuffer_shown h.inBounds.bounded h0)

theorem switchScreen (h : y.CursorInv) (t : TerminalId) : (y.switchScreen t).CursorInv := by
  have hbounds := h.inBounds.switchScreen t
  refine ⟨hbounds, h.chars, ?_⟩
  have hon := hbounds.bounded.toOnScreen
  exact moveCsr_shown ⟨hon.x_nonneg, hon.x_lt, hon.y_nonneg, hon.y_lt⟩

theorem putch (h : y.CursorInv) (c : UInt8) : (y.putch c).CursorInv :=
  h.apply (f := fun y => y.putch c) (local_putch c y) (h.inBounds.bounded.putch c)
    (noNul_putch h.noNul c) (putch_keeps_shown h.inBounds.bounded h.shown c)

theorem text (h : y.CursorInv) (text : List UInt8) : (text.foldl Tty.putch y).CursorInv := by
  induction text generalizing y with
  | nil => exact h
  | cons c text ih => exact ih (h.putch c)

/-- Only the flags of the keyboard driver have changed. -/
theorem setFlags (h : y.CursorInv) (ctrl alt cap enter : Bool) : CursorInv
    { y with ctrlFlag := ctrl, altFlag := alt, capFlag := cap, enterFlag := enter } :=
  ⟨h.inBounds, h.chars, h.shown⟩

end CursorInv

/-- Backspace leaves the cursor shown in an empty line whose anchor the cursor has not
left, and in a line that keeps a character and has no newline in it. -/
def BackspaceShown (y : Tty) : Prop :=
  y.curLen = 0 ∧ y.curX = y.curLineBeginning ∧ y.curY = y.curLineY ∨
    2 ≤ y.curLen ∧ ∀ k, k + 1 < y.curLen → y.curBuffer k ≠ newlineChar

theorem CursorInv.backspaceKey {y : Tty} (h : y.CursorInv) (hok : y.BackspaceShown) :
    y.backspace.printBuffer.CursorInv := by
  rcases hok with ⟨hlen, hx, hy⟩ | ⟨hlen, hline⟩
  · rw [backspace_of_empty hlen]
    exact h.apply (localAt_printBuffer h.inBounds.bounded.len_le) h.inBounds.bounded.printBuffer
      (noNul_printBuffer h.noNul) (printBuffer_anchored h.shown hlen hx hy)
  · have hpos : 0 < y.curLen := by omega
    have hb := h.inBounds.bounded.backspace hline
    have herase := input_backspace hline h.inBounds.bounded.len_le
    have hn : y.backspace.input.NoNul := by
      rw [herase]
      exact InputLine.erase_ne h.noNul
    have hrest : 0 < y.backspace.curLen := by
      have hsub : y.input.erase.len = y.curLen - 1 := congrArg InputLine.len (if_pos hpos)
      have heq : y.backspace.curLen = y.curLen - 1 := (congrArg InputLine.len herase).trans hsub
      omega
    have hs : y.backspace.CursorShown := by
      rw [backspace_of_pos hpos] at hb ⊢
      exact moveCsr_shown ⟨hb.x_nonneg, hb.x_lt, hb.y_nonneg, hb.y_lt⟩
    exact (h.apply (localAt_backspace h.inBounds.bounded.len_le) hb hn hs).printBuffer hrest

end Tty

/-! ## Whole runs -/

/-- The calls after which the cursor is looked at. -/
inductive CursorEvent
  | key (sc : UInt8)
  | write (buf : Option (ℕ → UInt8)) (count : ℤ)
  | read (count : ℤ)
  | clearScreen

/-- Printable keys, with Ctrl-L but without Ctrl-C, and Backspace, Enter, the modifiers,
Alt with a function key, and the release of any key. -/
inductive CursorKey (y : Tty) (sc : UInt8) : Prop
  | printable (h : PrintableKey sc) (hc : ¬ (y.ctrlFlag = true ∧ sc = cButton))
  | backspace (h : sc = backspaceCode)
  | enter (h : sc = enterCode)
  | modifier (h : sc ∈ [lCtrl, lAlt, lshift, rshift, caplock])
  | switch (halt : y.altFlag = true) (h : sc ∈ [keyF1, keyF2, keyF3])
  | release (h : keyRelease < sc)

def CursorEvent.Admissible (y : Tty) : CursorEvent → Prop
  | .key sc => CursorKey y sc
  | _ => True

/-- Backspace is pressed only where it leaves the cursor shown, and Ctrl-L only when the
input line begins in the first column. -/
def CursorEvent.Safe (y : Tty) : CursorEvent → Prop
  | .key sc => (sc = backspaceCode → y.BackspaceShown) ∧
      (sc = lButton → y.ctrlFlag = true → y.curLineBeginning = 0)
  | _ => True

namespace Kernel

variable {m : Machine} {fr : StackFrame} {s s' : Kernel}

def cursorStep (m : Machine) (fr : StackFrame) (s : Kernel) : CursorEvent → Except Stop Kernel
  | .key sc => s.keyboardHandler m fr sc
  | .write buf count => return s.onTty fun y => (y.terminalWrite buf count).2
  | .read count => do return { s with tty := (← s.tty.terminalRead count).2 }
  | .clearScreen => return s.onTty Tty.clearScreen

/-- The runs after `terminal_open` in which every event meets `ok`. Between two events
the rest of the kernel may change. -/
inductive CursorRun (m : Machine) (ok : Tty → CursorEvent → Prop) : Kernel → Prop where
  | start {s : Kernel} (h₀ : ∀ t, s.tty.bufferLen t = 0) : CursorRun m ok (s.onTty Tty.terminalOpen)
  | step {s s' : Kernel} (fr : StackFrame) (e : CursorEvent) (h : CursorRun m ok s)
      (hadm : e.Admissible s.tty) (hok : ok s.tty e) (hstep : s.cursorStep m fr e = .ok s') :
      CursorRun m ok s'
  | other {s s' : Kernel} (h : CursorRun m ok s) (htty : s'.tty = s.tty) : CursorRun m ok s'

theorem keyboardHandler_clear (h : s.tty.ctrlFlag = true) :
    s.keyboardHandler m fr lButton = .ok (s.onTty fun y => y.clearScreen.printBuffer) := by
  rw [keyboardHandler, h]
  cases s.tty.altFlag <;> rfl

theorem keyboardHandler_release {sc : UInt8} (h : keyRelease < sc)
    (hx : s.keyboardHandler m fr sc = .ok s') : ∃ ctrl alt cap enter, s'.tty =
      { s.tty with ctrlFlag := ctrl, altFlag := alt, capFlag := cap, enterFlag := enter } := by
  rw [keyboardHandler, if_neg (UInt8.not_le.mpr h)] at hx
  split at hx
  · cases hx
    exact ⟨false, s.tty.altFlag, s.tty.capFlag, s.tty.enterFlag, rfl⟩
  split at hx
  · cases hx
    exact ⟨s.tty.ctrlFlag, s.tty.altFlag, !s.tty.capFlag, s.tty.enterFlag, rfl⟩
  split at hx
  · cases hx
    exact ⟨s.tty.ctrlFlag, !s.tty.altFlag, s.tty.capFlag, s.tty.enterFlag, rfl⟩
  · cases hx
    exact ⟨s.tty.ctrlFlag, s.tty.altFlag, s.tty.capFlag, s.tty.enterFlag, rfl⟩

theorem keyboardHandler_modifier {sc : UInt8} (h : sc ∈ [lCtrl, lAlt, lshift, rshift, caplock])
    (hx : s.keyboardHandler m fr sc = .ok s') : ∃ ctrl alt cap enter, s'.tty =
      { s.tty with ctrlFlag := ctrl, altFlag := alt, capFlag := cap, enterFlag := enter } := by
  simp only [List.mem_cons, List.not_mem_nil, or_false] at h
  rcases h with rfl | rfl | h
  · cases hx
    exact ⟨true, s.tty.altFlag, s.tty.capFlag, s.tty.enterFlag, rfl⟩
  · cases hx
    exact ⟨s.tty.ctrlFlag, true, s.tty.capFlag, s.tty.enterFlag, rfl⟩
  · have htoggle : sc ∈ toggleCodes := by
      rcases h with rfl | rfl | rfl <;> decide
    rw [keyboardHandler_toggle htoggle] at hx
    cases hx
    exact ⟨s.tty.ctrlFlag, s.tty.altFlag, !s.tty.capFlag, s.tty.enterFlag, rfl⟩

/-- The function keys are behind the end of `keys`: what is read there may be a newline,
and then the key is Enter. -/
theorem keyboardHandler_function {sc : UInt8} (halt : s.tty.altFlag = true)
    (h : sc ∈ [keyF1, keyF2, keyF3]) (hx : s.keyboardHandler m fr sc = .ok s') :
    s' = (s.onTty fun y => y.press .enter) ∨ ∃ t, s.switchTerminal m fr t = .ok s' := by
  have hle : ∀ sc ∈ [keyF1, keyF2, keyF3], sc ≤ keyRelease := by decide +kernel
  rw [keyboardHandler, if_pos (hle sc h)] at hx
  by_cases hnl : keyAt m sc = newlineChar
  · rw [if_pos hnl] at hx
    cases hx
    exact .inl rfl
  · right
    have hother : ∀ sc ∈ [keyF1, keyF2, keyF3], sc ≠ backspaceCode ∧ sc ≠ lCtrl ∧ sc ≠ lAlt := by
      decide +kernel
    obtain ⟨hback, hctrl, hAlt⟩ := hother sc h
    rw [if_neg hnl, if_neg hback, if_neg hctrl, if_neg hAlt] at hx
    by_cases h1 : sc = keyF1
    · rw [if_pos ⟨halt, h1⟩] at hx
      exact ⟨terminal1, hx⟩
    rw [if_neg fun hand => h1 hand.2] at hx
    by_cases h2 : sc = keyF2
    · rw [if_pos ⟨halt, h2⟩] at hx
      exact ⟨terminal2, hx⟩
    rw [if_neg fun hand => h2 hand.2] at hx
    simp only [List.mem_cons, List.not_mem_nil, or_false, h1, h2, false_or] at h
    rw [if_pos ⟨halt, h⟩] at hx
    exact ⟨terminal3, hx⟩

/-- One call of the keyboard handler, by the kind of the key. -/
theorem keyboardHandler_cursorInv {sc : UInt8} (h : s.tty.CursorInv) (hkey : CursorKey s.tty sc)
    (hok : (CursorEvent.key sc).Safe s.tty) (hx : s.keyboardHandler m fr sc = .ok s') :
    s'.tty.CursorInv := by
  have henter : (s.tty.press .enter).CursorInv :=
    (h.addToBuffer (by decide)).setFlags _ _ _ true
  cases hkey with
  | printable hkey hc =>
    by_cases hl : s.tty.ctrlFlag = true ∧ sc = lButton
    · obtain ⟨hctrl, rfl⟩ := hl
      rw [keyboardHandler_clear hctrl] at hx
      cases hx
      exact h.clearKey (hok.2 rfl hctrl)
    · have hplain : s.tty.Plain sc := by
        intro k hk
        simp only [List.mem_cons, List.not_mem_nil, or_false] at hk
        rcases hk with rfl | rfl
        · exact hl
        · exact hc
      rw [keyboardHandler_keystroke hplain (hkey.keystroke _)] at hx
      cases hx
      exact h.char (ne_zero_of_printable (hkey.tableChar _))
  | backspace hsc =>
    subst hsc
    cases hx
    exact h.backspaceKey (hok.1 rfl)
  | enter hsc =>
    subst hsc
    cases hx
    exact henter
  | modifier hmem =>
    obtain ⟨ctrl, alt, cap, enter, hflags⟩ := keyboardHandler_modifier hmem hx
    rw [hflags]
    exact h.setFlags ctrl alt cap enter
  | switch halt hmem =>
    rcases keyboardHandler_function halt hmem hx with rfl | ⟨t, hswitch⟩
    · exact henter
    · exact switchTerminal_keeps (fun h => h.switchScreen t) Tty.CursorInv.text h hswitch
  | release hsc =>
    obtain ⟨ctrl, alt, cap, enter, hflags⟩ := keyboardHandler_release hsc hx
    rw [hflags]
    exact h.setFlags ctrl alt cap enter

theorem cursorStep_inv {e : CursorEvent} (h : s.tty.CursorInv) (hadm : e.Admissible s.tty)
    (hok : e.Safe s.tty) (hx : s.cursorStep m fr e = .ok s') : s'.tty.CursorInv := by
  cases e with
  | key sc => exact keyboardHandler_cursorInv h hadm hok hx
  | write buf count =>
    cases hx
    exact h.terminalWrite buf count
  | read count =>
    obtain ⟨⟨line, y⟩, hread, hpure⟩ := bind_eq_ok.mp hx
    cases hpure
    rw [Tty.terminalRead] at hread
    split at hread
    · cases hread
      exact h.newLine.setFlags _ _ _ false
    · cases hread
  | clearScreen =>
    cases hx
    exact h.clearScreen

theorem cursorInv_terminalOpen {y : Tty} (h₀ : ∀ t, y.bufferLen t = 0) :
    y.terminalOpen.CursorInv := by
  have hon := (Tty.allInBounds_terminalOpen h₀).bounded.toOnScreen
  have hshown : y.terminalOpen.CursorShown :=
    Tty.moveCsr_shown (s := y.terminalOpen) hon
  refine ⟨Tty.allInBounds_terminalOpen h₀, fun t k hk => ?_, hshown⟩
  have hlen : y.terminalOpen.bufferLen t = 0 := by
    change Function.update y.bufferLen terminal1 0 t = 0
    by_cases ht : t = terminal1
    · rw [ht, Function.update_self]
    · rw [Function.update_of_ne ht, h₀]
  omega

theorem CursorRun.inv (h : CursorRun m CursorEvent.Safe s) : s.tty.CursorInv := by
  induction h with
  | start h₀ => exact cursorInv_terminalOpen h₀
  | step _ _ _ hadm hok hstep ih => exact cursorStep_inv ih hadm hok hstep
  | other _ htty ih => rwa [htty]

/-- In every state of a run without an unsafe Backspace and without an unsafe Ctrl-L, the
registers hold the position of the logical cursor. -/
theorem hardware_cursor_shown (h : CursorRun m CursorEvent.Safe s) : s.tty.CursorShown := h.inv.shown

/-- The run after `terminal_open` at boot. -/
theorem CursorRun.boot (ok : Tty → CursorEvent → Prop) :
    CursorRun shellMachine ok (bootKernel.onTty Tty.terminalOpen) :=
  .start fun _ => rfl

theorem CursorRun.type {ok : Tty → CursorEvent → Prop} (h : CursorRun m ok s) {sc c : UInt8}
    (hkey : PrintableKey sc) (hctrl : s.tty.ctrlFlag = false) (hc : tableChar s.tty.capFlag sc = c)
    (hok : ok s.tty (.key sc)) : CursorRun m ok (s.onTty fun y => y.press (.char c)) := by
  have hplain := Tty.plain_of_up hctrl sc
  have hk : keystroke s.tty.capFlag sc = some (.char c) := hc ▸ hkey.keystroke _
  exact h.step blankFrame (.key sc)
    (CursorKey.printable hkey (hplain cButton (by simp))) hok (keyboardHandler_keystroke hplain hk)

/-- "a" is typed. -/
theorem typed_cursor_shown :
    ((bootKernel.onTty Tty.terminalOpen).onTty fun y => y.press (.char 97)).tty.CursorShown := by
  have hchar : tableChar false 0x1E = 97 := by decide +kernel
  have hok : (CursorEvent.key 0x1E).Safe (bootKernel.onTty Tty.terminalOpen).tty :=
    ⟨fun hsc => absurd hsc (by decide), fun hsc => absurd hsc (by decide)⟩
  have hkey : PrintableKey 0x1E := by decide +kernel
  exact hardware_cursor_shown ((CursorRun.boot _).type hkey rfl hchar hok)

/-- "a" and Backspace: the registers stay one cell to the right of the cursor. Ctrl-L with
a prompt in front of the input line: the registers stay in the first column. -/
theorem hardware_cursor_left_behind :
    (∃ s, CursorRun shellMachine (fun _ _ => True) s ∧ ¬ s.tty.CursorShown ∧
      s.tty.curY * 80 + s.tty.curX = 0 ∧ s.tty.cursorHigh = 0 ∧ s.tty.cursorLow = 1) ∧
    ∃ s, CursorRun shellMachine (fun _ _ => True) s ∧ ¬ s.tty.CursorShown ∧
      s.tty.curY * 80 + s.tty.curX = 2 ∧ s.tty.cursorHigh = 0 ∧ s.tty.cursorLow = 0 := by
  have hboot := CursorRun.boot fun _ _ => True
  constructor
  · have hchar : tableChar false 0x1E = 97 := by decide +kernel
    have htyped := hboot.type (by decide +kernel : PrintableKey 0x1E) rfl hchar trivial
    have hback := htyped.step blankFrame (.key backspaceCode)
      (CursorKey.backspace rfl) trivial rfl
    exact ⟨_, hback, by decide +kernel⟩
  · have hprompt := hboot.step blankFrame (.write (some fun _ => 36) 2) trivial trivial
      rfl
    have hctrl := hprompt.step blankFrame (.key lCtrl)
      (CursorKey.modifier (by decide)) trivial rfl
    have hl : PrintableKey lButton := by decide +kernel
    have hclear := hctrl.step blankFrame (.key lButton)
      (CursorKey.printable hl (by decide +kernel)) trivial rfl
    exact ⟨_, hclear, by decide +kernel⟩

end Kernel

end KudOS
