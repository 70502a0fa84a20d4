import KudOS.InputLine

/-!
# Cells and the cursor

The screen as a row of 2000 cells and the cursor as a position in it. While the cursor
is on the screen, `putch` of a printable character is a store at this position followed
by one step to the right, and both the right edge and a newline lead to the next row,
which at the bottom is made by scrolling.
-/

namespace KudOS

/-! ## Stores to the screen -/

namespace Screen

theorem read_of_lt (v : Screen) {k : ℕ} (hk : k < 2048) : v.read k = v ⟨k, hk⟩ := dif_pos hk

theorem read_write (v : Screen) (k : ℕ) (c : UInt16) {j : ℕ} (hj : j < 2048) :
    (v.write k c).read j = if j = k then c else v.read j := by
  rw [read_of_lt _ hj, read_of_lt _ hj]
  rfl

/-- The first `n` cells are those of the row below. -/
def shifted (v : Screen) (n : ℕ) : Screen := fun i =>
  if i.val < n then v.read (i.val + width) else v i

theorem shifted_zero (v : Screen) : v.shifted 0 = v := by
  funext i
  exact if_neg (Nat.not_lt_zero _)

/-- Copying one more cell from the row below, which still holds its old contents. -/
theorem shifted_succ (v : Screen) {n : ℕ} (hn : n + width < 2048) :
    (v.shifted n).write n ((v.shifted n).read (n + width)) = v.shifted (n + 1) := by
  have hbelow : (v.shifted n).read (n + width) = v.read (n + width) := by
    rw [read_of_lt _ hn, read_of_lt _ hn]
    exact if_neg (Nat.not_lt.mpr (Nat.le_add_right n width))
  funext i
  rw [hbelow, write, shifted, shifted]
  by_cases hi : i.val = n
  · rw [if_pos hi, hi, if_pos (Nat.lt_succ_self n)]
  · have hiff : i.val < n + 1 ↔ i.val < n := by omega
    simp only [hi, hiff, if_false]

theorem copyRow (v : Screen) {i : ℕ} (hi : i < 24) :
    forLoop width (fun j v => v.write (i * width + j) (v.read ((i + 1) * width + j)))
      (v.shifted (i * width)) = v.shifted ((i + 1) * width) := by
  have hloop := forLoop_induct (fun j u => u = v.shifted (i * width + j))
    (fun j v => v.write (i * width + j) (v.read ((i + 1) * width + j))) (n := width)
    (s := v.shifted (i * width)) rfl fun j hj u hu => by
      have hnext : (i + 1) * width + j = i * width + j + width := by
        rw [width]
        omega
      rw [hu, hnext]
      exact v.shifted_succ (by rw [width] at hj ⊢; omega)
  rw [hloop]
  congr 1
  rw [width]
  omega

theorem blankRow (v : Screen) (c : UInt16) (base : ℕ) :
    forLoop width (fun j v => v.write (base + j) c) v = v.memsetWord base c width := by
  refine forLoop_induct (fun j u => u = v.memsetWord base c j)
    (fun j v => v.write (base + j) c) (n := width) (s := v) ?_ fun j hj u hu => ?_
  · funext i
    exact (if_neg (by omega)).symm
  · subst hu
    funext i
    rw [write, memsetWord, memsetWord]
    by_cases hi : i.val = base + j
    · rw [if_pos hi, if_pos (by omega)]
    · have hiff : (base ≤ i.val ∧ i.val < base + (j + 1)) ↔ (base ≤ i.val ∧ i.val < base + j) := by
        omega
      simp only [hi, hiff, if_false]

/-- All rows one up, and a blank row at the bottom. -/
def scrolled (v : Screen) (blank : UInt16) : Screen := (v.shifted 1920).memsetWord 1920 blank width

theorem read_scrolled (v : Screen) (blank : UInt16) {k : ℕ} (hk : k < 2000) :
    (v.scrolled blank).read k = if k < 1920 then v.read (k + 80) else blank := by
  have hcell : k < 2048 := by omega
  rw [read_of_lt _ hcell, scrolled, memsetWord, shifted]
  by_cases hlt : k < 1920
  · have hout : ¬ (1920 ≤ k ∧ k < 1920 + width) := by omega
    rw [if_neg hout, if_pos hlt, if_pos hlt]
    rfl
  · have hin : 1920 ≤ k ∧ k < 1920 + width := by
      rw [width]
      omega
    rw [if_pos hin, if_neg hlt]

theorem read_scrolled_of_ge (v : Screen) (blank : UInt16) {k : ℕ} (hk : 2000 ≤ k) :
    (v.scrolled blank).read k = v.read k := by
  rw [read, read]
  split
  · have hout : ¬ (1920 ≤ k ∧ k < 1920 + width) := by
      rw [width]
      omega
    have hrow : ¬ k < 1920 := by omega
    rw [scrolled, memsetWord, if_neg hout, shifted, if_neg hrow]
  · rfl

/-- The first 2000 cells are blank. -/
def blanked (v : Screen) (blank : UInt16) : Screen := v.memsetWord 0 blank 2000

theorem read_blanked (v : Screen) (blank : UInt16) {k : ℕ} (hk : k < 2000) :
    (v.blanked blank).read k = blank := by
  have hcell : k < 2048 := by omega
  rw [read_of_lt _ hcell]
  exact if_pos ⟨Nat.zero_le k, by omega⟩

theorem read_blanked_of_ge (v : Screen) (blank : UInt16) {k : ℕ} (hk : 2000 ≤ k) :
    (v.blanked blank).read k = v.read k := by
  rw [read, read]
  split
  · have hout : ¬ (0 ≤ k ∧ k < 0 + 2000) := by omega
    rw [blanked, memsetWord, if_neg hout]
  · rfl

theorem read_write_of_ne (v : Screen) (c : UInt16) {j k : ℕ} (hj : j ≠ k) :
    (v.write k c).read j = v.read j := by
  rw [read, read]
  split
  · exact if_neg hj
  · rfl

theorem blankRows (v : Screen) (c : UInt16) :
    forLoop height (fun i v => v.memsetWord (i * width) c width) v = v.blanked c := by
  refine forLoop_induct (fun i u => u = v.memsetWord 0 c (i * width))
    (fun i v => v.memsetWord (i * width) c width) (n := height) (s := v) ?_ fun i hi u hu => ?_
  · funext k
    exact (if_neg (by omega)).symm
  · subst hu
    funext k
    rw [memsetWord, memsetWord, memsetWord, width]
    by_cases hk : i * 80 ≤ k.val ∧ k.val < i * 80 + 80
    · rw [if_pos hk, if_pos (by omega)]
    · have hiff : (0 ≤ k.val ∧ k.val < 0 + (i + 1) * 80) ↔ (0 ≤ k.val ∧ k.val < 0 + i * 80) := by
        omega
      simp only [hk, hiff, if_false]

end Screen

namespace Tty

variable {s : Tty} {c : UInt8}

theorem scrollRows_eq (s : Tty) : s.scrollRows = s.video.scrolled (s.cell blankSpace) := by
  have hmoved : forLoop (height - 1) (fun i v => forLoop width
      (fun j v => v.write (i * width + j) (v.read ((i + 1) * width + j))) v) s.video =
      s.video.shifted 1920 := by
    refine forLoop_induct (fun i u => u = s.video.shifted (i * width))
      (fun i v => forLoop width
        (fun j v => v.write (i * width + j) (v.read ((i + 1) * width + j))) v)
      (n := height - 1) (s := s.video) ?_ fun i hi u hu => ?_
    · rw [Nat.zero_mul, Screen.shifted_zero]
    · rw [hu]
      exact s.video.copyRow hi
  rw [scrollRows, hmoved, Screen.blankRow]
  rfl

/-! ## The cursor -/

structure OnScreen (s : Tty) : Prop where
  x_nonneg : 0 ≤ s.curX
  x_lt : s.curX < 80
  y_nonneg : 0 ≤ s.curY
  y_lt : s.curY < 25

/-- The cell under the cursor. -/
def pos (s : Tty) : ℕ := (s.curY * width + s.curX).toNat

/-- The store of `putch` at the cursor. -/
def store (s : Tty) (c : UInt8) : Tty := { s with video := s.video.write s.pos (s.cell c) }

def nextRow (s : Tty) : Tty := ((s.setY (s.curY + 1)).setX 0).scroll

@[simp] theorem curX_setX (v : ℤ) : (s.setX v).curX = v := Function.update_self ..
@[simp] theorem curY_setY (v : ℤ) : (s.setY v).curY = v := Function.update_self ..
@[simp] theorem curLineY_setLineY (v : ℤ) : (s.setLineY v).curLineY = v := Function.update_self ..
@[simp] theorem curLen_setLen (n : ℕ) : (s.setLen n).curLen = n := Function.update_self ..
@[simp] theorem curY_setX (v : ℤ) : (s.setX v).curY = s.curY := rfl
@[simp] theorem curX_moveCsr (s : Tty) : s.moveCsr.curX = s.curX := rfl
@[simp] theorem curY_moveCsr (s : Tty) : s.moveCsr.curY = s.curY := rfl

theorem setX_setX (v w : ℤ) : (s.setX v).setX w = s.setX w := by
  simp only [setX, Function.update_idem]

/-- Stores elsewhere leave the cursor where it is. -/
theorem OnScreen.moveCsr (h : s.OnScreen) : s.moveCsr.OnScreen :=
  ⟨h.x_nonneg, h.x_lt, h.y_nonneg, h.y_lt⟩

theorem OnScreen.setLineY (h : s.OnScreen) (v : ℤ) : (s.setLineY v).OnScreen :=
  ⟨h.x_nonneg, h.x_lt, h.y_nonneg, h.y_lt⟩

theorem OnScreen.clearBuffer (h : s.OnScreen) : s.clearBuffer.OnScreen :=
  ⟨h.x_nonneg, h.x_lt, h.y_nonneg, h.y_lt⟩

theorem OnScreen.store (h : s.OnScreen) (c : UInt8) : (s.store c).OnScreen :=
  ⟨h.x_nonneg, h.x_lt, h.y_nonneg, h.y_lt⟩

theorem scroll_of_lt (h : s.curY < 25) : s.scroll = s := by
  refine if_neg ?_
  rw [height]
  omega

theorem putchTail_of_onScreen (h : s.OnScreen) : s.putchTail = s.moveCsr := by
  have hx : ¬ s.curX ≥ width := by
    have := h.x_lt
    rw [width]
    omega
  rw [putchTail, if_neg hx, scroll_of_lt h.y_lt]

theorem pos_lt (h : s.OnScreen) : s.pos < 2000 := by
  have := h.x_lt
  have := h.y_lt
  rw [pos, width]
  omega

theorem pos_eq (h : s.OnScreen) : (s.pos : ℤ) = s.curY * 80 + s.curX := by
  have := h.x_nonneg
  have := h.y_nonneg
  rw [pos, width]
  omega

/-- The first guard of `putch`. -/
theorem cursor_in_page (h : s.OnScreen) : ¬ s.curY * width + s.curX ≥ pageSize4KB := by
  have hpos := pos_eq h
  have hlt := pos_lt h
  rw [width, pageSize4KB]
  omega

theorem cell_address (h : s.OnScreen) :
    (videoMem + 2 * (s.curY * width + s.curX) : ℤ) % wordSize = videoMem + 2 * s.pos := by
  have hpos := pos_eq h
  have hlt := pos_lt h
  rw [width, wordSize, videoMem]
  omega

/-- The second guard of `putch`. -/
theorem address_in_page (h : s.OnScreen) :
    ¬ ((videoMem + 2 * s.pos : ℤ) ≥ videoMem + pageSize4KB ∨
      (videoMem + 2 * s.pos : ℤ) < videoMem) := by
  have hlt := pos_lt h
  rw [videoMem, pageSize4KB]
  omega

theorem address_cell (s : Tty) : ((videoMem + 2 * s.pos - videoMem : ℤ) / 2).toNat = s.pos := by
  omega

/-- On the screen the guards of `putch` are idle. -/
theorem putch_printable (h : s.OnScreen) (hc : blankSpace ≤ c) :
    s.putch c = ((s.store c).setX (s.curX + 1)).putchTail := by
  rw [putch, if_neg (ne_newline_of_printable hc), if_neg (ne_backspace_of_printable hc), if_pos hc,
    if_neg (cursor_in_page h), cell_address h, if_neg (address_in_page h), address_cell]
  rfl

/-! ## One byte -/

theorem putch_inner (h : s.OnScreen) (hc : blankSpace ≤ c) (hx : s.curX + 1 < 80) :
    s.putch c = ((s.store c).setX (s.curX + 1)).moveCsr := by
  have hnext : ((s.store c).setX (s.curX + 1)).OnScreen := by
    have := h.x_nonneg
    refine ⟨?_, ?_, h.y_nonneg, h.y_lt⟩
    · rw [curX_setX]
      omega
    · rwa [curX_setX]
  rw [putch_printable h hc, putchTail_of_onScreen hnext]

theorem putch_edge (h : s.OnScreen) (hc : blankSpace ≤ c) (hx : s.curX + 1 = 80) :
    s.putch c = (s.store c).nextRow.moveCsr := by
  have hwrap : ((s.store c).setX (s.curX + 1)).curX ≥ width := by
    rw [curX_setX, hx]
    decide
  rw [putch_printable h hc, putchTail, if_pos hwrap, setX_setX]
  rfl

/-- The next row is the one below, or the last row after scrolling. -/
theorem nextRow_of_lt (h : s.curY + 1 < 25) : s.nextRow = (s.setY (s.curY + 1)).setX 0 := by
  refine scroll_of_lt ?_
  rwa [curY_setX, curY_setY]

theorem nextRow_of_last (h : s.curY = 24) : s.nextRow =
    (({ s with video := s.video.scrolled (s.cell blankSpace) }.setY 24).setLineY 23).setX 0 := by
  have hfull : ((s.setY (s.curY + 1)).setX 0).curY ≥ height := by
    rw [curY_setX, curY_setY, h]
    decide
  rw [nextRow, scroll, if_pos hfull, scrollRows_eq]
  simp only [setX, setY, setLineY, curY, Function.update_idem, Function.update_self]
  rfl

theorem nextRow_onScreen (h : s.OnScreen) : s.nextRow.OnScreen := by
  have := h.y_nonneg
  have := h.y_lt
  by_cases hy : s.curY + 1 < 25
  · rw [nextRow_of_lt hy]
    refine ⟨?_, ?_, ?_, ?_⟩
    · rw [curX_setX]
    · rw [curX_setX]
      decide
    · rw [curY_setX, curY_setY]
      omega
    · rwa [curY_setX, curY_setY]
  · rw [nextRow_of_last (by omega)]
    refine ⟨?_, ?_, ?_, ?_⟩
    · rw [curX_setX]
    · rw [curX_setX]
      decide
    · exact le_of_le_of_eq (by decide) (curY_setY (s := { s with video := _ }) 24).symm
    · exact lt_of_eq_of_lt (curY_setY (s := { s with video := _ }) 24) (by decide)

theorem putch_newline (h : s.OnScreen) : s.putch newlineChar =
    (s.nextRow.setLineY s.nextRow.curY).clearBuffer.moveCsr := by
  have hline : s.newLine true = (s.nextRow.moveCsr.setLineY s.nextRow.moveCsr.curY).clearBuffer := rfl
  have hrow : (s.newLine true).OnScreen := by
    rw [hline]
    exact ((nextRow_onScreen h).moveCsr.setLineY _).clearBuffer
  rw [putch, if_pos rfl, putchTail_of_onScreen hrow, hline]
  generalize s.nextRow = s'
  rfl

theorem backward_onScreen (h : s.OnScreen) (hx : s.curX ≠ 0) : (s.setX (s.curX - 1)).OnScreen := by
  have := h.x_nonneg
  have := h.x_lt
  refine ⟨?_, ?_, h.y_nonneg, h.y_lt⟩
  · rw [curX_setX]
    omega
  · rw [curX_setX]
    omega

/-- What `putch` can do while the cursor is on the screen. -/
inductive PutchResult (s : Tty) (c : UInt8) : Tty → Prop where
  | newline (hc : c = newlineChar) :
      PutchResult s c (s.nextRow.setLineY s.nextRow.curY).clearBuffer.moveCsr
  | inner (hc : blankSpace ≤ c) (hx : s.curX + 1 < 80) :
      PutchResult s c ((s.store c).setX (s.curX + 1)).moveCsr
  | edge (hc : blankSpace ≤ c) (hx : s.curX + 1 = 80) :
      PutchResult s c (s.store c).nextRow.moveCsr
  | backward (hc : c = backspaceChar) (hx : s.curX ≠ 0) :
      PutchResult s c (s.setX (s.curX - 1)).moveCsr
  | stay (hc : ¬ blankSpace ≤ c) (h0 : c ≠ 0) : PutchResult s c s.moveCsr
  | nul (hc : c = 0) : PutchResult s c s

theorem putch_cases (h : s.OnScreen) (c : UInt8) : PutchResult s c (s.putch c) := by
  have := h.x_lt
  by_cases hnl : c = newlineChar
  · subst hnl
    rw [putch_newline h]
    exact .newline rfl
  by_cases hprint : blankSpace ≤ c
  · by_cases hx : s.curX + 1 < 80
    · rw [putch_inner h hprint hx]
      exact .inner hprint hx
    · rw [putch_edge h hprint (by omega)]
      exact .edge hprint (by omega)
  rw [putch, if_neg hnl]
  by_cases hbs : c = backspaceChar
  · rw [if_pos hbs]
    by_cases hx : s.curX ≠ 0
    · rw [if_pos hx, putchTail_of_onScreen (backward_onScreen h hx)]
      exact .backward hbs hx
    · rw [if_neg hx, putchTail_of_onScreen h]
      exact .stay hprint (by rw [hbs]; decide)
  rw [if_neg hbs, if_neg hprint]
  by_cases h0 : c = 0
  · rw [if_pos h0]
    exact .nul h0
  · rw [if_neg h0, putchTail_of_onScreen h]
    exact .stay hprint h0

/-- What `putch` keeps, the loop of `print_buffer` keeps. -/
theorem printLoop_keeps {P : Tty → Prop} (hputch : ∀ {s}, P s → ∀ c, P (s.putch c)) (h : P s)
    (n i : ℕ) : P (printLoop n i s) := by
  induction n generalizing i s with
  | zero => exact h
  | succ n ih =>
    rw [printLoop]
    split
    · exact ih (hputch h _) (i + 1)
    · exact h

/-! ## Program output -/

/-- The anchor of the input line at the cursor. -/
def setAnchor (s : Tty) : Tty := ((s.setLineBeginning s.curX).setLineY s.curY).moveCsr

theorem curLineBeginning_setAnchor (s : Tty) : s.setAnchor.curLineBeginning = s.curX :=
  Function.update_self ..

theorem curLineY_setAnchor (s : Tty) : s.setAnchor.curLineY = s.curY := Function.update_self ..

theorem terminalWrite_eq (s : Tty) (b : ℕ → UInt8) (count : ℤ) :
    (s.terminalWrite (some b) count).2 =
      (((List.range count.toNat).map b).foldl putch s).setAnchor := by
  have hloop := forLoop_eq_foldl count.toNat putch b s
  rw [terminalWrite, hloop]
  rfl

/-! ## Backspace -/

/-- The input line printed with a blank for its last character. -/
def blankedLine (s : Tty) : Tty :=
  (s.storeBuffer (s.curLen - 1) blankSpace).printBuffer

theorem backspace_of_pos (h : 0 < s.curLen) : s.backspace =
    (s.blankedLine.setLen ((s.blankedLine.curLen + (2 ^ 16 - 1)) % 2 ^ 16)).moveCsr := if_pos h

theorem backspace_of_empty (h : s.curLen = 0) : s.backspace = s := if_neg (by omega)

end Tty
end KudOS
