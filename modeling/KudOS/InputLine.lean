import KudOS.KeyboardDriver

/-!
# The input line of the active terminal

The driver functions seen through the part of the terminal state that takes part in
line editing: the buffer, its length and the keyboard flags. Echoing changes cursor
and screen only, with one exception: `putch` of a newline empties the buffer.
-/

namespace KudOS

theorem ne_newline_of_printable {c : UInt8} (hc : blankSpace ≤ c) : c ≠ newlineChar := by
  rintro rfl
  exact absurd hc (by decide)

theorem ne_zero_of_printable {c : UInt8} (hc : blankSpace ≤ c) : c ≠ 0 := by
  rintro rfl
  exact absurd hc (by decide)

theorem ne_backspace_of_printable {c : UInt8} (hc : blankSpace ≤ c) : c ≠ backspaceChar := by
  rintro rfl
  exact absurd hc (by decide)

/-- The buffer and its length, and the flags of the keyboard driver. -/
structure InputLine where
  buffer : ℕ → UInt8
  len : ℕ
  enter : Bool
  ctrl : Bool
  alt : Bool
  cap : Bool

namespace InputLine

def cleared (b : InputLine) : InputLine :=
  { b with buffer := fun k => if k < buffLen then 0 else b.buffer k, len := 0 }

def add (b : InputLine) (c : UInt8) : InputLine :=
  if b.len < buffLen then { b with buffer := Function.update b.buffer b.len c, len := b.len + 1 }
  else b

/-- What `backspace` leaves: the last character is overwritten by a blank before the
length is decremented. -/
def erase (b : InputLine) : InputLine :=
  if b.len > 0 then
    { b with buffer := Function.update b.buffer (b.len - 1) blankSpace, len := b.len - 1 }
  else b

theorem add_ne {b : InputLine} {x c : UInt8} (h : ∀ k < b.len, b.buffer k ≠ x) (hc : c ≠ x) :
    ∀ k < (b.add c).len, (b.add c).buffer k ≠ x := by
  unfold InputLine.add
  split
  · intro k hk
    change Function.update b.buffer b.len c k ≠ x
    by_cases hkl : k = b.len
    · rwa [hkl, Function.update_self]
    · rw [Function.update_of_ne hkl]
      exact h k (by simp only at hk; omega)
  · exact h

/-- The blank stored by `erase` is no longer part of the line. -/
theorem erase_ne {b : InputLine} {x : UInt8} (h : ∀ k < b.len, b.buffer k ≠ x) :
    ∀ k < b.erase.len, b.erase.buffer k ≠ x := by
  unfold InputLine.erase
  split
  · intro k hk
    have hlt : k < b.len - 1 := hk
    change Function.update b.buffer (b.len - 1) blankSpace k ≠ x
    rw [Function.update_of_ne (Nat.ne_of_lt hlt)]
    exact h k (by omega)
  · exact h

/-- No character of the line is a newline, so that echoing keeps the line. -/
def Echoable (b : InputLine) : Prop := ∀ k < b.len, b.buffer k ≠ newlineChar

theorem Echoable.add {b : InputLine} (h : b.Echoable) {c : UInt8} (hc : c ≠ newlineChar) :
    (b.add c).Echoable := add_ne h hc

theorem Echoable.erase {b : InputLine} (h : b.Echoable) : b.erase.Echoable := erase_ne h

end InputLine

namespace Tty

variable (s : Tty)

def input : InputLine where
  buffer := s.curBuffer
  len := s.curLen
  enter := s.enterFlag
  ctrl := s.ctrlFlag
  alt := s.altFlag
  cap := s.capFlag

/-! ## Cursor and screen -/

@[simp] theorem input_setX (v : ℤ) : (s.setX v).input = s.input := rfl
@[simp] theorem input_setY (v : ℤ) : (s.setY v).input = s.input := rfl
@[simp] theorem input_setLineY (v : ℤ) : (s.setLineY v).input = s.input := rfl
@[simp] theorem input_setLineBeginning (v : ℤ) : (s.setLineBeginning v).input = s.input := rfl
@[simp] theorem input_moveCsr : s.moveCsr.input = s.input := rfl
@[simp] theorem input_video (v : Screen) : ({ s with video := v } : Tty).input = s.input := rfl

@[simp] theorem input_scroll : s.scroll.input = s.input := by
  unfold scroll
  split <;> rfl

@[simp] theorem input_putchTail : s.putchTail.input = s.input := by
  unfold putchTail
  split <;> simp

/-! ## The buffer -/

theorem curBuffer_storeBuffer (i : ℕ) (c : UInt8) :
    (s.storeBuffer i c).curBuffer = Function.update s.curBuffer i c := by
  funext k
  change Function.update s.terminalBuffer (rowStart s.currTerminal + i) c
    (rowStart s.currTerminal + k) = _
  by_cases hk : k = i
  · rw [hk, Function.update_self, Function.update_self]
  · rw [Function.update_of_ne (by omega), Function.update_of_ne hk]
    rfl

theorem input_storeBuffer (i : ℕ) (c : UInt8) : (s.storeBuffer i c).input =
    { s.input with buffer := Function.update s.curBuffer i c } := by
  rw [← curBuffer_storeBuffer]
  rfl

theorem input_setLen (n : ℕ) : (s.setLen n).input = { s.input with len := n } := by
  have hlen : (s.setLen n).curLen = n := Function.update_self ..
  simp only [input, hlen]
  rfl

@[simp] theorem input_clearBuffer : s.clearBuffer.input = s.input.cleared := by
  have hrow : s.clearBuffer.curBuffer = fun k => if k < buffLen then 0 else s.curBuffer k := by
    have hstore := forLoop_store buffLen (rowStart s.currTerminal) (fun _ => (0 : UInt8))
      s.terminalBuffer
    funext k
    change forLoop buffLen (fun i b => Function.update b (rowStart s.currTerminal + i) 0)
      s.terminalBuffer (rowStart s.currTerminal + k) = _
    rw [hstore]
    simp only [Nat.le_add_right, true_and, Nat.add_lt_add_iff_left]
    rfl
  have hlen : s.clearBuffer.curLen = 0 := Function.update_self ..
  rw [input, hrow, hlen]
  rfl

@[simp] theorem input_newLine : (s.newLine true).input = s.input.cleared := by
  simp [newLine]

@[simp] theorem input_addToBuffer (c : UInt8) : (s.addToBuffer c).input = s.input.add c := by
  unfold addToBuffer InputLine.add
  change (if s.input.len < buffLen then _ else _ : Tty).input = _
  split
  · rw [input_setLen, input_storeBuffer]
    rfl
  · rfl

/-! ## Echoing -/

theorem input_putch {c : UInt8} (hc : c ≠ newlineChar) : (s.putch c).input = s.input := by
  unfold putch
  rw [if_neg hc]
  split
  · split <;> simp
  · split
    · split
      · rfl
      · dsimp only
        split <;> simp
    · split <;> simp

theorem input_putch_newline : (s.putch newlineChar).input = s.input.cleared := by
  rw [putch, if_pos rfl, input_putchTail, input_newLine]

theorem input_printLoop {s : Tty} (h : s.input.Echoable) (n i : ℕ) :
    (printLoop n i s).input = s.input := by
  induction n generalizing i s with
  | zero => rfl
  | succ n ih =>
    rw [printLoop]
    split
    · rename_i hi
      have hput : (s.putch (s.curBuffer i)).input = s.input := input_putch s (h i hi)
      rw [ih (hput ▸ h), hput]
    · rfl

/-- Echoing keeps a line without newlines. -/
theorem input_printBuffer {s : Tty} (h : s.input.Echoable) : s.printBuffer.input = s.input :=
  input_printLoop (s := (s.setY s.curLineY).setX _) h _ _

/-- The last character is gone when the line is printed, so it may be a newline. -/
theorem input_backspace {s : Tty} (h : ∀ k, k + 1 < s.curLen → s.curBuffer k ≠ newlineChar)
    (hlen : s.curLen ≤ buffLen) : s.backspace.input = s.input.erase := by
  unfold backspace InputLine.erase
  change (if s.curLen > 0 then _ else _ : Tty).input = if s.curLen > 0 then _ else _
  split
  · rename_i hpos
    let s₁ := s.storeBuffer (s.curLen - 1) blankSpace
    have h₁ : s₁.input.Echoable := by
      intro k hk
      rw [input_storeBuffer] at hk ⊢
      change Function.update s.curBuffer (s.curLen - 1) blankSpace k ≠ newlineChar
      by_cases hkl : k = s.curLen - 1
      · rw [hkl, Function.update_self]
        decide
      · have hk' : k < s.curLen := hk
        rw [Function.update_of_ne hkl]
        exact h k (by omega)
    have hprint := input_printBuffer h₁
    have hdec : (s₁.printBuffer.curLen + (2 ^ 16 - 1)) % 2 ^ 16 = s.curLen - 1 := by
      have hk : s₁.printBuffer.curLen = s.curLen := congrArg InputLine.len hprint
      rw [buffLen] at hlen
      omega
    dsimp only
    rw [input_moveCsr, hdec, input_setLen, hprint, input_storeBuffer]
    rfl
  · rfl

/-! ## Program output -/

theorem input_putchLoop (buf : ℕ → UInt8) (n : ℕ) :
    (forLoop n (fun i s => s.putch (buf i)) s).input =
      if ∃ i < n, buf i = newlineChar then s.input.cleared else s.input := by
  have hcleared : s.input.cleared.cleared = s.input.cleared := by
    simp only [InputLine.cleared]
    congr 1
    funext k
    split <;> rfl
  induction n with
  | zero => simp
  | succ n ih =>
    rw [forLoop_succ]
    by_cases hn : buf n = newlineChar
    · have hlast : ∃ i < n + 1, buf i = newlineChar := ⟨n, Nat.lt_succ_self n, hn⟩
      rw [hn, input_putch_newline, ih, if_pos hlast]
      split
      · exact hcleared
      · rfl
    · have hiff : (∃ i < n + 1, buf i = newlineChar) ↔ ∃ i < n, buf i = newlineChar := by
        constructor
        · rintro ⟨i, hi, hb⟩
          have hne : i ≠ n := fun he => hn (he ▸ hb)
          exact ⟨i, by omega, hb⟩
        · rintro ⟨i, hi, hb⟩
          exact ⟨i, by omega, hb⟩
      rw [input_putch _ hn, ih]
      simp only [hiff]

/-- A write leaves the input line alone unless it outputs a newline. -/
theorem input_terminalWrite (buf : Option (ℕ → UInt8)) (count : ℤ) :
    (s.terminalWrite buf count).2.input =
      if ∃ b, buf = some b ∧ ∃ i < count.toNat, b i = newlineChar then s.input.cleared
      else s.input := by
  cases buf with
  | none => simp [terminalWrite]
  | some b =>
    have hiff : (∃ b', some b = some b' ∧ ∃ i < count.toNat, b' i = newlineChar) ↔
        ∃ i < count.toNat, b i = newlineChar := by simp
    simp only [hiff]
    exact input_putchLoop s b count.toNat

end Tty
end KudOS
