import KudOS.LineEditing
import KudOS.ListPositions
import KudOS.TerminalBounds

/-!
# The echo of the input line

At every key the whole input line is printed again from its anchor, the cell behind the
prompt. When it grows over the end of the screen, the rows move up and the anchor has to
move with them. `scroll` puts it on row 23, which is the right row for a line that began
on the last one, but not for a line that scrolls the screen again from row 23.
-/

namespace KudOS

/-! ## Text in a row of cells -/

/-- Cells stored one after the other. -/
def Screen.writeCells (v : Screen) (k : ℕ) : List UInt16 → Screen
  | [] => v
  | c :: cs => (v.write k c).writeCells (k + 1) cs

theorem Screen.writeCells_append (v : Screen) (k : ℕ) (cs ds : List UInt16) :
    v.writeCells k (cs ++ ds) = (v.writeCells k cs).writeCells (k + cs.length) ds := by
  induction cs generalizing v k with
  | nil => rfl
  | cons c cs ih =>
    have hlen : k + (c :: cs).length = k + 1 + cs.length := by
      rw [List.length_cons]
      omega
    rw [hlen]
    exact ih (v.write k c) (k + 1)

theorem Screen.read_writeCells_of_out (v : Screen) {k j : ℕ} {cs : List UInt16}
    (hj : j < k ∨ k + cs.length ≤ j) : (v.writeCells k cs).read j = v.read j := by
  induction cs generalizing v k with
  | nil => rfl
  | cons c cs ih =>
    rw [List.length_cons] at hj
    have hrest : j < k + 1 ∨ k + 1 + cs.length ≤ j := by omega
    rw [writeCells, ih _ hrest, read_write_of_ne _ _ (by omega)]

theorem Screen.read_writeCells (v : Screen) {k i : ℕ} {cs : List UInt16} (hi : i < cs.length)
    (hcell : k + i < 2048) : (v.writeCells k cs).read (k + i) = cs[i] := by
  induction cs generalizing v k i with
  | nil => exact absurd hi (Nat.not_lt_zero i)
  | cons c cs ih =>
    cases i with
    | zero =>
      rw [writeCells, read_writeCells_of_out _ (.inl (by omega)), read_write _ _ _ hcell]
      exact if_pos rfl
    | succ i =>
      have hnext : k + (i + 1) = k + 1 + i := by omega
      rw [hnext] at hcell ⊢
      exact ih _ (Nat.lt_of_succ_lt_succ hi) hcell

namespace Tty

variable {s s' : Tty} {c : UInt8}

/-- The cursor has advanced to cell `k`, the screen is `v`, and the input line has not
been moved. -/
structure Advanced (s : Tty) (k : ℕ) (v : Screen) (s' : Tty) : Prop where
  onScreen : s'.OnScreen
  pos : s'.pos = k
  video : s'.video = v
  lineY : s'.curLineY = s.curLineY
  lineBeginning : s'.curLineBeginning = s.curLineBeginning
  attrib : s'.attrib = s.attrib

theorem cell_congr (h : s'.attrib = s.attrib) : s'.cell = s.cell := by
  funext c
  rw [cell, cell, h]

theorem pos_setX_setY (x y : ℤ) : ((s.setY y).setX x).pos = (y * width + x).toNat := by
  rw [pos, curX_setX, curY_setX, curY_setY]

theorem putch_advanced (h : s.OnScreen) (hc : blankSpace ≤ c) (hpos : s.pos + 1 < 2000) :
    s.Advanced (s.pos + 1) (s.video.write s.pos (s.cell c)) (s.putch c) := by
  have hx0 := h.x_nonneg
  have hx80 := h.x_lt
  have hy0 := h.y_nonneg
  have heq := pos_eq h
  by_cases hx : s.curX + 1 < 80
  · rw [putch_inner h hc hx]
    have hon : ((s.store c).setX (s.curX + 1)).OnScreen := by
      refine ⟨?_, ?_, h.y_nonneg, h.y_lt⟩
      · rw [curX_setX]
        omega
      · rwa [curX_setX]
    refine ⟨hon.moveCsr, ?_, rfl, rfl, rfl, rfl⟩
    change ((s.store c).setX (s.curX + 1)).pos = s.pos + 1
    have hnext := pos_eq hon
    rw [curX_setX, curY_setX] at hnext
    change _ = s.curY * 80 + (s.curX + 1) at hnext
    omega
  · have hrow : (s.store c).curY + 1 < 25 := by
      change s.curY + 1 < 25
      omega
    rw [putch_edge h hc (by omega)]
    refine ⟨(nextRow_onScreen (h.store c)).moveCsr, ?_, ?_, ?_, ?_, ?_⟩
    · change (s.store c).nextRow.pos = s.pos + 1
      rw [nextRow_of_lt hrow, pos_setX_setY]
      change ((s.curY + 1) * width + 0).toNat = s.pos + 1
      rw [width]
      omega
    all_goals rw [nextRow_of_lt hrow]; rfl

/-- A printable character in the last cell: the rows move up, and so does the anchor. -/
theorem putch_scrolls (h : s.OnScreen) (hc : blankSpace ≤ c) (hpos : s.pos = 1999) :
    Advanced (s.setLineY 23) 1920 ((s.video.write s.pos (s.cell c)).scrolled (s.cell blankSpace))
      (s.putch c) := by
  have hx80 := h.x_lt
  have hy25 := h.y_lt
  have heq := pos_eq h
  have hrow : (s.store c).curY = 24 := by
    change s.curY = 24
    omega
  rw [putch_edge h hc (by omega)]
  refine ⟨(nextRow_onScreen (h.store c)).moveCsr, ?_, ?_, ?_, ?_, ?_⟩
  · change (s.store c).nextRow.pos = 1920
    have hx : (s.store c).nextRow.curX = 0 := by rw [nextRow_of_last hrow, curX_setX]
    have hy : (s.store c).nextRow.curY = 24 := by
      rw [nextRow_of_last hrow]
      exact curY_setY (s := { s.store c with video := _ }) 24
    rw [pos, hx, hy]
    rfl
  all_goals rw [nextRow_of_last hrow]; rfl

def cells (s : Tty) (l : List UInt8) : List UInt16 := l.map s.cell

theorem text_advanced {l : List UInt8} (h : s.OnScreen) (hl : ∀ c ∈ l, blankSpace ≤ c)
    (hpos : s.pos + l.length < 2000) :
    s.Advanced (s.pos + l.length) (s.video.writeCells s.pos (s.cells l)) (l.foldl putch s) := by
  induction l generalizing s with
  | nil => exact ⟨h, rfl, rfl, rfl, rfl, rfl⟩
  | cons c l ih =>
    rw [List.length_cons] at hpos ⊢
    have hstep := putch_advanced h (hl c List.mem_cons_self) (by omega)
    have hrest := ih hstep.onScreen (fun d hd => hl d (List.mem_cons_of_mem c hd))
      (by rw [hstep.pos]; omega)
    have hend : s.pos + (l.length + 1) = (s.putch c).pos + l.length := by
      rw [hstep.pos]
      omega
    have hcells : (s.putch c).cells l = s.cells l := by rw [cells, cells, cell_congr hstep.attrib]
    rw [hend]
    refine ⟨hrest.onScreen, hrest.pos, ?_, hrest.lineY.trans hstep.lineY,
      hrest.lineBeginning.trans hstep.lineBeginning, hrest.attrib.trans hstep.attrib⟩
    rw [List.foldl_cons, hrest.video, hcells, hstep.video, hstep.pos]
    rfl

theorem text_scrolls {l : List UInt8} (h : s.OnScreen) (hl : ∀ c ∈ l, blankSpace ≤ c)
    (hpos : s.pos + l.length = 2000) :
    Advanced (s.setLineY 23) 1920
      ((s.video.writeCells s.pos (s.cells l)).scrolled (s.cell blankSpace)) (l.foldl putch s) := by
  have hlt := pos_lt h
  rcases List.eq_nil_or_concat' l with rfl | ⟨l, c, rfl⟩
  · rw [List.length_nil] at hpos
    omega
  · rw [List.length_append, List.length_singleton] at hpos
    have hinit := text_advanced h (fun d hd => hl d (List.mem_append_left _ hd)) (by omega)
    have hlast := putch_scrolls hinit.onScreen (hl c (List.mem_append_right _ List.mem_cons_self))
      (by rw [hinit.pos]; omega)
    rw [List.foldl_append]
    refine ⟨hlast.onScreen, hlast.pos, ?_, ?_, ?_, ?_⟩
    · have hcells : s.cells (l ++ [c]) = s.cells l ++ [s.cell c] := List.map_append
      have hlen : (s.cells l).length = l.length := List.length_map ..
      rw [hcells, Screen.writeCells_append, hlen, ← hinit.video, ← hinit.pos,
        ← cell_congr hinit.attrib]
      exact hlast.video
    · exact hlast.lineY.trans ((curLineY_setLineY 23).trans (curLineY_setLineY 23).symm)
    · exact hlast.lineBeginning.trans hinit.lineBeginning
    · exact hlast.attrib.trans hinit.attrib

/-! ## Printing the input line -/

/-- The cell behind the prompt. -/
def anchor (s : Tty) : ℕ := (s.curLineY * 80 + s.curLineBeginning).toNat

theorem printLoop_eq_foldl (h : s.input.Echoable) {n i : ℕ} (hn : i + n = s.curLen) :
    printLoop n i s = ((List.range' i n).map s.curBuffer).foldl putch s := by
  induction n generalizing i s with
  | zero => rfl
  | succ n ih =>
    have hi : i < s.curLen := by omega
    have hput : (s.putch (s.curBuffer i)).input = s.input := input_putch s (h i hi)
    have hbuf : (s.putch (s.curBuffer i)).curBuffer = s.curBuffer := congrArg InputLine.buffer hput
    have hlen : (s.putch (s.curBuffer i)).curLen = s.curLen := congrArg InputLine.len hput
    rw [printLoop, if_pos hi, ih (hput ▸ h) (by rw [hlen]; omega), hbuf]
    rfl

/-- `print_buffer` prints the line in the buffer from the anchor on. -/
theorem printBuffer_eq_foldl {l : List UInt8} (h : s.input.Holds l) (hlen : s.curLen = l.length) :
    s.printBuffer = l.foldl putch ((s.setY s.curLineY).setX s.curLineBeginning) := by
  have htext : (List.range' 0 s.curLen).map s.curBuffer = l := by
    apply List.ext_getElem
    · rw [List.length_map, List.length_range', hlen]
    · intro i hi hl
      rw [List.getElem_map, List.getElem_range', Nat.zero_add, Nat.one_mul]
      exact h.chars i hl
  have hloop := printLoop_eq_foldl (s := (s.setY s.curLineY).setX s.curLineBeginning)
    (h.echoable hlen) (Nat.zero_add s.curLen)
  exact hloop.trans (congrArg (List.foldl putch _) htext)

/-! ## The anchored line -/

/-- The number of rows by which a line of `n` characters, with the cursor behind it, goes
over the bottom of the screen. -/
def overflow (s : Tty) (n : ℕ) : ℕ := (s.anchor + n) / 80 - 24

/-- Around the input line the screen is that of `y₀`, moved up by the rows that the line
has needed; `n` is the greatest length it has had. -/
structure Framed (y₀ : Tty) (n : ℕ) (y : Tty) : Prop where
  bounded : y.Bounded
  lineBeginning : y.curLineBeginning = y₀.curLineBeginning
  lineY : y.curLineY = y₀.curLineY - y₀.overflow n
  erased : ∀ i, y.curLen ≤ i → i < n → y.video.read (y.anchor + i) = y.cell blankSpace
  above : ∀ k < y.anchor, y.video.read k = y₀.video.read (k + 80 * y₀.overflow n)

/-- The line in the buffer is shown behind the prompt, and the cursor behind the line. -/
structure Anchored (y₀ : Tty) (n : ℕ) (y : Tty) : Prop extends Framed y₀ n y where
  text : ∀ i < y.curLen, y.video.read (y.anchor + i) = y.cell (y.curBuffer i)
  cursor : y.pos = y.anchor + y.curLen

variable {y₀ y : Tty} {n : ℕ} {l : List UInt8}

theorem anchor_congr {s' : Tty} (hy : s'.curLineY = s.curLineY)
    (hx : s'.curLineBeginning = s.curLineBeginning) : s'.anchor = s.anchor := by
  rw [anchor, anchor, hy, hx]

theorem Bounded.anchor_eq (h : y.Bounded) :
    (y.anchor : ℤ) = y.curLineY * 80 + y.curLineBeginning := by
  have := h.lineY_nonneg
  have := h.lineBeginning_nonneg
  rw [Tty.anchor]
  omega

theorem Framed.anchor_start (h : Framed y₀ n y) : y₀.anchor = y.anchor + 80 * y₀.overflow n := by
  have := h.lineY
  have := h.lineBeginning
  have := h.bounded.lineY_nonneg
  have := h.bounded.lineBeginning_nonneg
  rw [anchor, anchor]
  omega

/-- As long as the line ends on the screen, no more rows are needed. -/
theorem Framed.overflow_max (h : Framed y₀ n y) {k : ℕ} (hk : y.anchor + k < 2000) :
    y₀.overflow (max n k) = y₀.overflow n := by
  have hstart := h.anchor_start
  rw [overflow] at hstart ⊢
  rw [overflow]
  omega

theorem Framed.widen (h : Framed y₀ n y) (hfit : y.anchor + y.curLen < 2000) :
    Framed y₀ (max n y.curLen) y := by
  have hrows := h.overflow_max hfit
  refine ⟨h.bounded, h.lineBeginning, ?_, fun i hi hlt => h.erased i hi (by omega), ?_⟩
  · rw [hrows]
    exact h.lineY
  · rw [hrows]
    exact h.above

/-! ## Printing it -/

theorem pos_anchor (y : Tty) : ((y.setY y.curLineY).setX y.curLineBeginning).pos = y.anchor :=
  pos_setX_setY ..

theorem printBuffer_advanced (h : y.Bounded) (hold : y.input.Holds l) (hlen : y.curLen = l.length)
    (hfit : y.anchor + l.length < 2000) :
    y.Advanced (y.anchor + l.length) (y.video.writeCells y.anchor (y.cells l)) y.printBuffer := by
  rw [← pos_anchor] at hfit ⊢
  rw [printBuffer_eq_foldl hold hlen]
  have htext := text_advanced h.anchor.toOnScreen hold.printable hfit
  exact ⟨htext.onScreen, htext.pos, htext.video, htext.lineY, htext.lineBeginning, htext.attrib⟩

theorem printBuffer_scrolls (h : y.Bounded) (hold : y.input.Holds l) (hlen : y.curLen = l.length)
    (hfull : y.anchor + l.length = 2000) :
    (y.setLineY 23).Advanced 1920
      ((y.video.writeCells y.anchor (y.cells l)).scrolled (y.cell blankSpace)) y.printBuffer := by
  rw [← pos_anchor] at hfull ⊢
  rw [printBuffer_eq_foldl hold hlen]
  have htext := text_scrolls h.anchor.toOnScreen hold.printable hfull
  exact ⟨htext.onScreen, htext.pos, htext.video, htext.lineY, htext.lineBeginning, htext.attrib⟩

theorem read_line (hold : y.input.Holds l) {i : ℕ} (hi : i < l.length)
    (hcell : y.anchor + i < 2048) :
    (y.video.writeCells y.anchor (y.cells l)).read (y.anchor + i) = y.cell (y.curBuffer i) := by
  have hlen : i < (y.cells l).length := by rwa [cells, List.length_map]
  have hchar : y.curBuffer i = l[i] := hold.chars i hi
  rw [Screen.read_writeCells _ hlen hcell, hchar]
  exact List.getElem_map ..

theorem Framed.printBuffer (h : Framed y₀ n y) (hold : y.input.Holds l)
    (hlen : y.curLen = l.length) (hfit : y.anchor + l.length < 2000) :
    Anchored y₀ n y.printBuffer := by
  have hinput := input_printBuffer (hold.echoable hlen)
  have hbuf : y.printBuffer.curBuffer = y.curBuffer := congrArg InputLine.buffer hinput
  have hcur : y.printBuffer.curLen = y.curLen := congrArg InputLine.len hinput
  have htext := printBuffer_advanced h.bounded hold hlen hfit
  have hanchor := anchor_congr htext.lineY htext.lineBeginning
  have hcell := cell_congr htext.attrib
  have hcells : (y.cells l).length = l.length := List.length_map ..
  refine ⟨⟨h.bounded.printBuffer, htext.lineBeginning.trans h.lineBeginning,
    htext.lineY.trans h.lineY, ?_, ?_⟩, ?_, ?_⟩
  · intro i hi hlt
    rw [hcur] at hi
    rw [hanchor, hcell, htext.video, Screen.read_writeCells_of_out _ (.inr (by omega))]
    exact h.erased i hi hlt
  · intro k hk
    rw [hanchor] at hk
    rw [htext.video, Screen.read_writeCells_of_out _ (.inl hk)]
    exact h.above k hk
  · intro i hi
    rw [hcur, hlen] at hi
    rw [hanchor, hcell, hbuf, htext.video]
    exact read_line hold hi (by omega)
  · rw [hanchor, hcur, htext.pos, hlen]

/-- A line that began on the last row and fills it: everything has moved up by one row. -/
theorem Framed.printBuffer_of_last (h : Framed y₀ n y) (h₀ : y₀.curLineY < 25)
    (hold : y.input.Holds l) (hlen : y.curLen = l.length) (hfull : y.anchor + l.length = 2000)
    (hlast : y.curLineY = 24) : Anchored y₀ (max n l.length) y.printBuffer := by
  have hinput := input_printBuffer (hold.echoable hlen)
  have hbuf : y.printBuffer.curBuffer = y.curBuffer := congrArg InputLine.buffer hinput
  have hcur : y.printBuffer.curLen = y.curLen := congrArg InputLine.len hinput
  have htext := printBuffer_scrolls h.bounded hold hlen hfull
  have hcell : y.printBuffer.cell = y.cell := cell_congr htext.attrib
  have hcells : (y.cells l).length = l.length := List.length_map ..
  have hrow : y.printBuffer.curLineY = 23 := htext.lineY.trans (curLineY_setLineY 23)
  have hbegin : y.printBuffer.curLineBeginning = y.curLineBeginning := htext.lineBeginning
  -- the line has not scrolled before, and has never been longer
  have hzero : y₀.overflow n = 0 := by
    have := h.lineY
    omega
  have hstart : y₀.anchor = y.anchor := by
    have := h.anchor_start
    omega
  have hwidest : n < l.length := by
    rw [overflow] at hzero
    omega
  have hrows : y₀.overflow (max n l.length) = 1 := by
    rw [overflow]
    omega
  have hanchor : y.printBuffer.anchor + 80 = y.anchor := by
    have := h.bounded.lineBeginning_nonneg
    rw [anchor, anchor, hrow, hbegin, hlast]
    omega
  refine ⟨⟨h.bounded.printBuffer, hbegin.trans h.lineBeginning, ?_, ?_, ?_⟩, ?_, ?_⟩
  · have := h.lineY
    rw [hrow, hrows]
    omega
  · intro i hi hlt
    rw [hcur, hlen] at hi
    omega
  · intro k hk
    rw [htext.video, Screen.read_scrolled _ _ (by omega), if_pos (by omega),
      Screen.read_writeCells_of_out _ (.inl (by omega)), h.above _ (by omega), hzero, hrows]
  · intro i hi
    rw [hcur, hlen] at hi
    have hup : y.printBuffer.anchor + i + 80 = y.anchor + i := by omega
    rw [hcell, hbuf, htext.video, Screen.read_scrolled _ _ (by omega), if_pos (by omega), hup]
    exact read_line hold hi (by omega)
  · rw [hcur, htext.pos, hlen]
    omega

/-- A line that began on row 23 and fills both rows: the anchor stays where it is, and the
cursor is not behind the line. -/
theorem printBuffer_not_anchored (h : y.Bounded) (hold : y.input.Holds l)
    (hlen : y.curLen = l.length) (hfull : y.anchor + l.length = 2000) (hrow : y.curLineY = 23) :
    ¬ Anchored y₀ n y.printBuffer := by
  intro hbad
  have hcur : y.printBuffer.curLen = y.curLen :=
    congrArg InputLine.len (input_printBuffer (hold.echoable hlen))
  have htext := printBuffer_scrolls h hold hlen hfull
  have hline : y.printBuffer.curLineY = y.curLineY :=
    (htext.lineY.trans (curLineY_setLineY 23)).trans hrow.symm
  have hcursor := hbad.cursor
  rw [htext.pos, anchor_congr hline htext.lineBeginning, hcur, hlen] at hcursor
  omega

/-! ## One key -/

theorem anchor_addToBuffer (y : Tty) (c : UInt8) : (y.addToBuffer c).anchor = y.anchor := by
  rw [addToBuffer]
  split
  · rfl
  · rfl

theorem Framed.addToBuffer (h : Framed y₀ n y) (c : UInt8) : Framed y₀ n (y.addToBuffer c) := by
  rw [Tty.addToBuffer]
  split
  · rename_i hroom
    refine ⟨(h.bounded.memory _).setLen hroom, h.lineBeginning, h.lineY, fun i hi hlt => ?_,
      h.above⟩
    rw [curLen_setLen] at hi
    exact h.erased i (by omega) hlt
  · exact h

theorem Anchored.fits (h : Anchored y₀ n y) : y.anchor + y.curLen < 2000 := by
  rw [← h.cursor]
  exact pos_lt h.bounded.toOnScreen

theorem Anchored.widen (h : Anchored y₀ n y) : Anchored y₀ (max n y.curLen) y :=
  ⟨h.toFramed.widen h.fits, h.text, h.cursor⟩

/-- The line is about to scroll the screen from row 23. -/
def SecondOverflow (y : Tty) : Prop :=
  y.curLen < buffLen ∧ y.curLineY = 23 ∧ y.curLineBeginning + y.curLen = 159

/-- A printable key; the line is printed with the new character, if there is room for it. -/
theorem Anchored.char (h : Anchored y₀ n y) (h₀ : y₀.curLineY < 25) (hold : y.input.Holds l)
    (hlen : y.curLen = l.length) (hc : blankSpace ≤ c) (hsafe : ¬ y.SecondOverflow) :
    Anchored y₀ (max n (if l.length < buffLen then l ++ [c] else l).length)
      (y.addToBuffer c).printBuffer := by
  have hfits := h.fits
  have hframed := h.toFramed.addToBuffer c
  have hanchor := y.anchor_addToBuffer c
  have hroom : (if l.length < buffLen then l ++ [c] else l).length =
      if l.length < buffLen then l.length + 1 else l.length := by
    rw [apply_ite List.length, List.length_append, List.length_singleton]
  obtain ⟨hold', hlen'⟩ := hold.add hlen hc
  rw [← input_addToBuffer] at hold' hlen'
  generalize (if l.length < buffLen then l ++ [c] else l) = l' at hold' hlen' hroom ⊢
  have hcur : (y.addToBuffer c).curLen = l'.length := hlen'
  by_cases hfit : (y.addToBuffer c).anchor + l'.length < 2000
  · have hwide := hframed.widen (by rwa [hcur])
    rw [hcur] at hwide
    exact hwide.printBuffer hold' hcur hfit
  · have hlt : l.length < buffLen := by
      by_contra hfull
      rw [if_neg hfull] at hroom
      omega
    rw [if_pos hlt] at hroom
    -- the character goes to the last cell, so that the line began on row 23 or 24
    have hrow : y.curLineY = 24 := by
      have := h.bounded.anchor_eq
      have := h.bounded.lineBeginning_lt
      have := h.bounded.lineY_lt
      have hsafe' : ¬ (y.curLineY = 23 ∧ y.curLineBeginning + y.curLen = 159) :=
        fun hand => hsafe ⟨hlen ▸ hlt, hand⟩
      rw [buffLen] at hlt
      omega
    have hline : (y.addToBuffer c).curLineY = y.curLineY := by
      rw [hframed.lineY, h.lineY]
    exact hframed.printBuffer_of_last h₀ hold' hcur (by omega) (hline.trans hrow)

/-- The first half of Backspace: the line is printed with a blank for its last character. -/
theorem Anchored.blankedLine (h : Anchored y₀ n y) (hold : y.input.Holds l)
    (hlen : y.curLen = l.length) (hpos : 0 < y.curLen) :
    Anchored y₀ n y.blankedLine ∧ y.blankedLine.curLen = y.curLen ∧
      y.blankedLine.curBuffer (y.curLen - 1) = blankSpace := by
  have hle := hold.length_le
  have hfits := h.fits
  have hdrop : l.dropLast.length = y.curLen - 1 := by rw [List.length_dropLast, hlen]
  have hnew : (l.dropLast ++ [blankSpace]).length = y.curLen := by
    rw [List.length_append, List.length_singleton]
    omega
  let y₁ := y.storeBuffer (y.curLen - 1) blankSpace
  have hbuf : y₁.input.buffer = Function.update y.input.buffer l.dropLast.length blankSpace := by
    rw [hdrop]
    exact congrArg InputLine.buffer (input_storeBuffer ..)
  have hold₁ : y₁.input.Holds (l.dropLast ++ [blankSpace]) :=
    hold.dropLast.append (by omega) (UInt8.le_refl _) hbuf
  have hframed : Framed y₀ n y₁ :=
    ⟨h.bounded.memory _, h.lineBeginning, h.lineY, h.erased, h.above⟩
  have hprint := input_printBuffer (hold₁.echoable hnew.symm)
  have hfit : y₁.anchor + (l.dropLast ++ [blankSpace]).length < 2000 := by
    rw [hnew]
    exact hfits
  refine ⟨hframed.printBuffer hold₁ hnew.symm hfit, congrArg InputLine.len hprint, ?_⟩
  have hkept : y.blankedLine.curBuffer = y₁.input.buffer := congrArg InputLine.buffer hprint
  rw [hkept, hbuf, hdrop, Function.update_self]

/-- What `backspace` leaves: the blank is shown behind the shorter line. -/
theorem Anchored.backspace (h : Anchored y₀ n y) (hold : y.input.Holds l)
    (hlen : y.curLen = l.length) : Framed y₀ n y.backspace := by
  have hline : ∀ k, k + 1 < y.curLen → y.curBuffer k ≠ newlineChar :=
    fun k hk => hold.ne_newline (by omega)
  have hbounded := h.bounded.backspace hline
  by_cases hpos : 0 < y.curLen
  · obtain ⟨hblank, hcur, hchar⟩ := h.blankedLine hold hlen hpos
    have hle : l.length ≤ 128 := hold.length_le
    have hdec : (y.blankedLine.curLen + (2 ^ 16 - 1)) % 2 ^ 16 = y.curLen - 1 := by omega
    rw [backspace_of_pos hpos, hdec] at hbounded ⊢
    refine ⟨hbounded, hblank.lineBeginning, hblank.lineY, fun i hi hlt => ?_, hblank.above⟩
    change (y.blankedLine.setLen (y.curLen - 1)).curLen ≤ i at hi
    rw [curLen_setLen] at hi
    change y.blankedLine.video.read (y.blankedLine.anchor + i) = y.blankedLine.cell blankSpace
    by_cases hlast : i = y.curLen - 1
    · have hread := hblank.text i (by omega)
      rwa [hlast, hchar, ← hlast] at hread
    · exact hblank.erased i (by omega) hlt
  · rw [backspace_of_empty (by omega)]
    exact h.toFramed

theorem Anchored.erase (h : Anchored y₀ n y) (hold : y.input.Holds l) (hlen : y.curLen = l.length) :
    Anchored y₀ (max n l.dropLast.length) y.backspace.printBuffer := by
  have hfits := h.fits
  have hdrop : l.dropLast.length = l.length - 1 := List.length_dropLast
  have hframed := h.backspace hold hlen
  have hinput := input_backspace (s := y) (fun k hk => hold.ne_newline (by omega))
    (hlen ▸ hold.length_le)
  obtain ⟨hold', hlen'⟩ := hold.erase hlen
  rw [← hinput] at hold' hlen'
  have hcur : y.backspace.curLen = l.dropLast.length := hlen'
  have hanchor : y.backspace.anchor = y.anchor := by
    have := hframed.anchor_start
    have := h.anchor_start
    omega
  have hwide := hframed.widen (by omega)
  rw [hcur] at hwide
  exact hwide.printBuffer hold' hcur (by omega)

theorem Anchored.setCap (h : Anchored y₀ n y) (cap : Bool) :
    Anchored y₀ n { y with capFlag := cap } :=
  ⟨⟨⟨⟨h.bounded.x_nonneg, h.bounded.x_lt, h.bounded.y_nonneg, h.bounded.y_lt⟩,
    h.bounded.lineY_nonneg, h.bounded.lineY_lt, h.bounded.lineBeginning_nonneg,
    h.bounded.lineBeginning_lt, h.bounded.len_le⟩, h.lineBeginning, h.lineY, h.erased, h.above⟩,
    h.text, h.cursor⟩

theorem Anchored.start (h : y.Bounded) (hlen : y.curLen = 0)
    (hx : y.curX = y.curLineBeginning) (hy : y.curY = y.curLineY) : Anchored y 0 y := by
  have hpos := pos_eq h.toOnScreen
  have hlt := pos_lt h.toOnScreen
  have hanchor := h.anchor_eq
  have hrows : y.overflow 0 = 0 := by
    rw [overflow]
    omega
  refine ⟨⟨h, rfl, ?_, fun i _ hi => absurd hi (Nat.not_lt_zero i), ?_⟩, ?_, ?_⟩
  · rw [hrows]
    omega
  · rw [hrows]
    exact fun k _ => rfl
  · rw [hlen]
    exact fun i hi => absurd hi (Nat.not_lt_zero i)
  · omega

end Tty

/-! ## Whole runs -/

/-- The greatest length of the line during the presses. -/
def Edited.widest (e : Edited) : List UInt8 → ℕ
  | [] => e.line.length
  | sc :: codes => max e.line.length ((e.press sc).widest codes)

theorem Edited.widest_concat (e : Edited) (codes : List UInt8) (sc : UInt8) :
    e.widest (codes ++ [sc]) = max (e.widest codes) ((e.presses codes).press sc).line.length := by
  induction codes generalizing e with
  | nil => rfl
  | cons sc' codes ih =>
    change max e.line.length ((e.press sc').widest (codes ++ [sc])) = _
    rw [ih, ← max_assoc]
    rfl

theorem Edited.length_le_widest (e : Edited) (codes : List UInt8) :
    (e.presses codes).line.length ≤ e.widest codes := by
  induction codes generalizing e with
  | nil => exact le_rfl
  | cons sc codes ih => exact (ih (e.press sc)).trans (le_max_right _ _)

theorem PrintableKey.press_line {sc : UInt8} (h : PrintableKey sc) (e : Edited) :
    (e.press sc).line =
      if e.line.length < buffLen then e.line ++ [KudOS.tableChar e.cap sc] else e.line := by
  rw [Edited.press, if_neg h.ne_backspace, if_neg h.not_toggle, if_neg h.ne_caplockRelease]
  exact apply_ite Edited.line _ _ _

/-- No printable key is pressed when the line is about to scroll the screen from row 23. -/
def Tty.EchoSafe (y : Tty) (sc : UInt8) : Prop := PrintableKey sc → ¬ y.SecondOverflow

namespace Kernel

open Tty

variable {m : Machine} {fr : StackFrame} {s s' : Kernel} {y₀ : Tty} {n : ℕ} {e : Edited}

/-- The prompt has been written, and nothing has been typed behind it. -/
structure EchoStart (s : Kernel) : Prop where
  len : s.tty.curLen = 0
  bounded : s.tty.Bounded
  csrX : s.tty.curX = s.tty.curLineBeginning
  csrY : s.tty.curY = s.tty.curLineY

/-- Any write leaves such a state, if it leaves the input buffer empty. -/
theorem echoStart_terminalWrite (h : s.tty.Bounded) (buf : ℕ → UInt8) (count : ℤ)
    (hlen : (s.tty.terminalWrite (some buf) count).2.curLen = 0) :
    EchoStart (s.onTty fun y => (y.terminalWrite (some buf) count).2) := by
  have hbounded := h.terminalWrite (some buf) count
  refine ⟨hlen, hbounded, ?_, ?_⟩
  · change (s.tty.terminalWrite (some buf) count).2.curX =
      (s.tty.terminalWrite (some buf) count).2.curLineBeginning
    rw [terminalWrite_eq, curLineBeginning_setAnchor]
    rfl
  · change (s.tty.terminalWrite (some buf) count).2.curY =
      (s.tty.terminalWrite (some buf) count).2.curLineY
    rw [terminalWrite_eq, curLineY_setAnchor]
    rfl

theorem press_anchored (m : Machine) (fr : StackFrame) {sc : UInt8} (h : Anchored y₀ n s.tty)
    (h₀ : y₀.curLineY < 25) (hedit : Editing e s.tty) (hkey : EditKey sc) (hplain : s.tty.Plain sc)
    (hsafe : s.tty.EchoSafe sc) : ∃ s', s.keyboardHandler m fr sc = .ok s' ∧
      (Editing (e.press sc) s'.tty ∧ s'.tty.ctrlFlag = s.tty.ctrlFlag) ∧
      Anchored y₀ (max n (e.press sc).line.length) s'.tty := by
  obtain ⟨s', hx, hedit', hctrl⟩ := hedit.press m fr hkey hplain
  refine ⟨s', hx, ⟨hedit', hctrl⟩, ?_⟩
  cases hkey with
  | printable hkey =>
    rw [keyboardHandler_keystroke hplain (hedit.keystroke_char hkey)] at hx
    cases hx
    rw [hkey.press_line]
    exact h.char h₀ hedit.hold hedit.len (hkey.tableChar e.cap) (hsafe hkey)
  | backspace hsc =>
    subst hsc
    cases hx
    exact h.erase hedit.hold hedit.len
  | toggle hsc =>
    rw [keyboardHandler_toggle hsc] at hx
    cases hx
    rw [← hedit'.len]
    exact h.widen.setCap _
  | caplockRelease hsc =>
    subst hsc
    cases hx
    rw [← hedit'.len]
    exact h.widen

/-- The key that makes the line scroll the screen from row 23. -/
theorem press_not_anchored {sc : UInt8} (h : Anchored y₀ n s.tty) (hedit : Editing e s.tty)
    (hkey : PrintableKey sc) (hplain : s.tty.Plain sc) (hover : s.tty.SecondOverflow)
    (hx : s.keyboardHandler m fr sc = .ok s') (k : ℕ) : ¬ Anchored y₀ k s'.tty := by
  obtain ⟨hroom, hrow, hend⟩ := hover
  rw [keyboardHandler_keystroke hplain (hedit.keystroke_char hkey)] at hx
  cases hx
  have hframed := h.toFramed.addToBuffer (tableChar e.cap sc)
  have hanchor := s.tty.anchor_addToBuffer (tableChar e.cap sc)
  obtain ⟨hold, hlen⟩ := hedit.hold.add hedit.len (hkey.tableChar e.cap)
  have hlt : e.line.length < buffLen := hedit.len ▸ hroom
  rw [← input_addToBuffer, if_pos hlt] at hold hlen
  have hline : (s.tty.addToBuffer (tableChar e.cap sc)).curLineY = 23 := by
    rw [hframed.lineY, ← h.lineY, hrow]
  refine printBuffer_not_anchored hframed.bounded hold hlen ?_ hline
  have := h.bounded.anchor_eq
  have := hedit.len
  rw [List.length_append, List.length_singleton]
  omega

/-- The presses are handled, the buffer holds the edited line, and its echo is anchored. -/
def EchoesAfter (m : Machine) (fr : StackFrame) (s : Kernel) (codes : List UInt8) : Prop :=
  ∃ s', s.pressAll m fr codes = .ok s' ∧
    (Editing (Edited.presses ⟨[], s.tty.capFlag⟩ codes) s'.tty ∧ s'.tty.ctrlFlag = s.tty.ctrlFlag) ∧
    Anchored s.tty (Edited.widest ⟨[], s.tty.capFlag⟩ codes) s'.tty

/-- No press of the sequence scrolls the screen from row 23. -/
def EchoSafeDuring (m : Machine) (fr : StackFrame) (s : Kernel) (codes : List UInt8) : Prop :=
  ∀ pre sc s', pre ++ [sc] <+: codes → s.pressAll m fr pre = .ok s' → s'.tty.EchoSafe sc

theorem echoSafeDuring_iff_eachNext {codes : List UInt8} : EchoSafeDuring m fr s codes ↔
    EachNext (fun pre sc => ∀ s', s.pressAll m fr pre = .ok s' → s'.tty.EchoSafe sc) codes :=
  ⟨fun h pre sc hpre s' => h pre sc s' hpre, fun h pre sc s' hpre => h pre sc hpre s'⟩

theorem echoSafeDuring_concat {codes : List UInt8} {sc : UInt8} :
    EchoSafeDuring m fr s (codes ++ [sc]) ↔ EchoSafeDuring m fr s codes ∧
      ∀ s', s.pressAll m fr codes = .ok s' → s'.tty.EchoSafe sc := by
  rw [echoSafeDuring_iff_eachNext, echoSafeDuring_iff_eachNext, eachNext_concat]

/-- The keys of a line, without Ctrl-L and Ctrl-C. -/
def EchoKeys (s : Kernel) (codes : List UInt8) : Prop :=
  ∀ sc ∈ codes, EditKey sc ∧ s.tty.Plain sc

/-- By induction on the presses. -/
theorem echoesAfter_of_safe (h : EchoStart s) {codes : List UInt8} (hcodes : EchoKeys s codes)
    (hsafe : EchoSafeDuring m fr s codes) :
    EchoesAfter m fr s codes := by
  induction codes using List.reverseRecOn with
  | nil =>
    have hstart : Editing ⟨[], s.tty.capFlag⟩ s.tty := ⟨rfl, InputLine.holds_nil _, h.len⟩
    exact ⟨s, rfl, ⟨hstart, rfl⟩, .start h.bounded h.len h.csrX h.csrY⟩
  | append_singleton codes sc ih =>
    obtain ⟨hsafe, hlast⟩ := echoSafeDuring_concat.mp hsafe
    obtain ⟨s₁, hpress, ⟨hedit, hctrl⟩, hanch⟩ := ih
      (fun sc' hsc' => hcodes sc' (List.mem_append_left _ hsc')) hsafe
    have hkey := hcodes sc (List.mem_append_right _ List.mem_cons_self)
    obtain ⟨s₂, hx, ⟨hedit', hctrl'⟩, hanch'⟩ := press_anchored m fr hanch
      h.bounded.lineY_lt hedit hkey.1 (hkey.2.congr hctrl) (hlast s₁ hpress)
    refine ⟨s₂, (pressAll_concat hpress).trans hx, ⟨?_, hctrl'.trans hctrl⟩, ?_⟩
    · rw [Edited.presses_concat]
      exact hedit'
    · rw [Edited.widest_concat]
      exact hanch'

/-- The line begins above row 23, or has never been long enough to fill the rest of its row
and the next one. -/
def Roomy (y₀ : Tty) (n : ℕ) : Prop := y₀.curLineY < 23 ∨ y₀.curLineBeginning + n < 160

/-- A key is safe if the line stays roomy. -/
theorem echoSafe_iff {y : Tty} {sc : UInt8} (h : Anchored y₀ n y) (h₀ : y₀.curLineY < 25)
    (hedit : Editing e y) (hkey : EditKey sc) (hn : e.line.length ≤ n) (hroomy : Roomy y₀ n) :
    y.EchoSafe sc ↔ Roomy y₀ (max n (e.press sc).line.length) := by
  have hlineY := h.lineY
  have hbegin := h.lineBeginning
  have hlen := hedit.len
  have hstart := h.anchor_start
  have hanchor := h.bounded.anchor_eq
  have hx := h.bounded.lineBeginning_nonneg
  have hother : ¬ PrintableKey sc → (e.press sc).line.length ≤ n →
      (y.EchoSafe sc ↔ Roomy y₀ (max n (e.press sc).line.length)) := by
    intro hnot hle
    rw [max_eq_left hle]
    exact ⟨fun _ => hroomy, fun _ hprint => absurd hprint hnot⟩
  cases hkey with
  | printable hkey =>
    have hlen' : (e.press sc).line.length =
        if e.line.length < 128 then e.line.length + 1 else e.line.length := by
      rw [hkey.press_line, apply_ite List.length, List.length_append]
      rfl
    have hrow : y₀.curLineY ≥ 23 → y₀.curLineBeginning + n = 159 → y.curLineY = 23 := by
      intro hge hend
      rw [overflow] at hlineY
      rw [anchor] at hlineY
      omega
    constructor
    · intro hsafe
      by_contra hnot
      rw [Roomy, hlen'] at hnot
      rw [Roomy] at hroomy
      apply hsafe hkey
      have hlong : e.line.length < 128 ∧ y₀.curLineBeginning + n = 159 ∧ e.line.length = n := by
        split at hnot <;> omega
      exact ⟨hlen ▸ hlong.1, hrow (by omega) hlong.2.1, by omega⟩
    · rintro hroomy' - ⟨hroom, hrow23, hend⟩
      rw [buffLen, hlen] at hroom
      rw [Roomy, hlen', if_pos hroom] at hroomy'
      omega
  | backspace hsc =>
    refine hother (fun hprint => hprint.ne_backspace hsc) ?_
    rw [Edited.press, if_pos hsc]
    change e.line.dropLast.length ≤ n
    rw [List.length_dropLast]
    omega
  | toggle hsc =>
    have hback : sc ≠ backspaceCode := by
      rintro rfl
      exact absurd hsc (by decide)
    refine hother (fun hprint => hprint.not_toggle hsc) ?_
    rw [Edited.press, if_neg hback, if_pos hsc]
    exact hn
  | caplockRelease hsc =>
    subst hsc
    exact hother (fun hprint => hprint.ne_caplockRelease rfl) hn

/-- The safe sequences are those whose line stays roomy. -/
theorem echoSafeDuring_iff (h : EchoStart s) {codes : List UInt8} (hcodes : EchoKeys s codes) :
    EchoSafeDuring m fr s codes ↔ Roomy s.tty (Edited.widest ⟨[], s.tty.capFlag⟩ codes) := by
  induction codes using List.reverseRecOn with
  | nil =>
    refine ⟨fun _ => .inr ?_, fun _ => echoSafeDuring_iff_eachNext.mpr eachNext_nil⟩
    have := h.bounded.lineBeginning_lt
    change s.tty.curLineBeginning + ((0 : ℕ) : ℤ) < 160
    omega
  | append_singleton codes sc ih =>
    have hcodes' : EchoKeys s codes :=
      fun sc' hsc' => hcodes sc' (List.mem_append_left _ hsc')
    have hstep : EchoSafeDuring m fr s codes → ∃ s₁, s.pressAll m fr codes = .ok s₁ ∧
        (s₁.tty.EchoSafe sc ↔ Roomy s.tty (Edited.widest ⟨[], s.tty.capFlag⟩ (codes ++ [sc]))) := by
      intro hsafe
      obtain ⟨s₁, hpress, ⟨hedit, -⟩, hanch⟩ := echoesAfter_of_safe h hcodes' hsafe
      rw [Edited.widest_concat]
      exact ⟨s₁, hpress, echoSafe_iff hanch h.bounded.lineY_lt hedit
        (hcodes sc (List.mem_append_right _ List.mem_cons_self)).1 (Edited.length_le_widest _ _)
        ((ih hcodes').mp hsafe)⟩
    constructor
    · intro hsafe
      obtain ⟨hsafe, hlast⟩ := echoSafeDuring_concat.mp hsafe
      obtain ⟨s₁, hpress, hiff⟩ := hstep hsafe
      exact hiff.mp (hlast s₁ hpress)
    · intro hroomy
      have hsafe : EchoSafeDuring m fr s codes := by
        apply (ih hcodes').mpr
        rw [Edited.widest_concat] at hroomy
        rw [Roomy] at hroomy ⊢
        omega
      obtain ⟨s₁, hpress, hiff⟩ := hstep hsafe
      refine echoSafeDuring_concat.mpr ⟨hsafe, fun s' hpress' => ?_⟩
      rw [hpress] at hpress'
      cases hpress'
      exact hiff.mpr hroomy

/-- If the echo is anchored all the time, no press scrolls the screen from row 23. -/
theorem echoSafeDuring_of_anchored {codes : List UInt8} (hcodes : EchoKeys s codes)
    (hall : ∀ pre, pre <+: codes → EchoesAfter m fr s pre) : EchoSafeDuring m fr s codes := by
  intro pre sc s₁ hpre hpress hkey hover
  obtain ⟨s₁', hpress', ⟨hedit, hctrl⟩, hanch⟩ := hall pre ((List.prefix_append _ _).trans hpre)
  obtain ⟨s₂, hlast, -, hanch'⟩ := hall (pre ++ [sc]) hpre
  rw [hpress] at hpress'
  cases hpress'
  rw [pressAll_concat hpress] at hlast
  have hmem : sc ∈ codes := hpre.subset (List.mem_append_right _ List.mem_cons_self)
  exact press_not_anchored hanch hedit hkey ((hcodes sc hmem).2.congr hctrl) hover hlast _ hanch'

/-- Typing behind a prompt that ends at row `line_y` and column `line_beginning`: the echo
is anchored after every press of the sequence if and only if the row is above 23 or the
line never reaches 160 characters less the column. -/
theorem echo_anchored_iff (h : EchoStart s) {codes : List UInt8} (hcodes : EchoKeys s codes) :
    (∀ pre, pre <+: codes → EchoesAfter m fr s pre) ↔
      Roomy s.tty (Edited.widest ⟨[], s.tty.capFlag⟩ codes) := by
  have hiff : EchoSafeDuring m fr s codes ↔ _ := echoSafeDuring_iff h hcodes
  rw [← hiff]
  refine ⟨echoSafeDuring_of_anchored hcodes, fun hsafe pre hpre => ?_⟩
  exact echoesAfter_of_safe h (fun sc hsc => hcodes sc (hpre.subset hsc))
    fun pre' sc s' hpre' => hsafe pre' sc s' (hpre'.trans hpre)

/-- 23 newlines and a prompt of 32 characters. -/
def promptText (i : ℕ) : UInt8 := if i < 23 then newlineChar else 36

/-- The prompt has been written on row 23. -/
def promptKernel : Kernel :=
  (bootKernel.onTty Tty.terminalOpen).onTty fun y => (y.terminalWrite (some promptText) 55).2

theorem promptKernel_echoStart : EchoStart promptKernel := by
  have hlen : (blankTty.terminalOpen.terminalWrite (some promptText) 55).2.curLen = 0 := by
    decide +kernel
  exact echoStart_terminalWrite (s := bootKernel.onTty Tty.terminalOpen)
    (allInBounds_terminalOpen fun _ => rfl).bounded promptText 55 hlen

theorem promptKernel_place :
    promptKernel.tty.curLineY = 23 ∧ promptKernel.tty.curLineBeginning = 32 ∧
      promptKernel.tty.ctrlFlag = false ∧ promptKernel.tty.capFlag = false := by
  decide +kernel

theorem promptKernel_keys {codes : List UInt8} (h : ∀ sc ∈ codes, EditKey sc) :
    EchoKeys promptKernel codes :=
  fun sc hsc => ⟨h sc hsc, plain_of_up promptKernel_place.2.2.1 sc⟩

theorem editKey_a : EditKey 0x1E := .printable (by decide +kernel)

/-- "a", "a" and Backspace. -/
theorem typed_echo_anchored :
    EchoesAfter shellMachine blankFrame promptKernel [0x1E, 0x1E, 0x0E] := by
  have hkeys : EchoKeys promptKernel [0x1E, 0x1E, 0x0E] := by
    refine promptKernel_keys fun sc hsc => ?_
    simp only [List.mem_cons, List.not_mem_nil, or_false] at hsc
    rcases hsc with rfl | rfl | rfl
    · exact editKey_a
    · exact editKey_a
    · exact .backspace rfl
  have hroomy : Roomy promptKernel.tty
      (Edited.widest ⟨[], promptKernel.tty.capFlag⟩ [0x1E, 0x1E, 0x0E]) := by
    rw [Roomy, promptKernel_place.2.1, promptKernel_place.2.2.2]
    decide +kernel
  exact (echo_anchored_iff promptKernel_echoStart hkeys).mpr hroomy _ List.prefix_rfl

/-- 127 characters are echoed behind the prompt on row 23, and the next one is not. -/
theorem echo_lost : EchoStart promptKernel ∧ EchoKeys promptKernel (List.replicate 128 0x1E) ∧
    EchoesAfter shellMachine blankFrame promptKernel (List.replicate 127 0x1E) ∧
    ¬ EchoesAfter shellMachine blankFrame promptKernel (List.replicate 128 0x1E) := by
  have hkeys : ∀ n, EchoKeys promptKernel (List.replicate n 0x1E) := fun n =>
    promptKernel_keys fun sc hsc => (List.eq_of_mem_replicate hsc).symm ▸ editKey_a
  have hwidest : ∀ n ∈ [127, 128],
      Edited.widest ⟨[], promptKernel.tty.capFlag⟩ (List.replicate n 0x1E) = n := by
    rw [promptKernel_place.2.2.2]
    decide +kernel
  have hsafe : EchoSafeDuring shellMachine blankFrame promptKernel (List.replicate 127 0x1E) := by
    refine (echoSafeDuring_iff promptKernel_echoStart (hkeys 127)).mpr (.inr ?_)
    rw [hwidest 127 (by decide), promptKernel_place.2.1]
    decide
  have hshown := fun pre (hpre : pre <+: List.replicate 127 0x1E) =>
    echoesAfter_of_safe promptKernel_echoStart
      (fun sc hsc => hkeys 127 sc (hpre.subset hsc))
      (fun pre' sc s' hpre' => hsafe pre' sc s' (hpre'.trans hpre))
  refine ⟨promptKernel_echoStart, hkeys 128, hshown _ List.prefix_rfl, fun hlast => ?_⟩
  have hall : ∀ pre, pre <+: List.replicate 128 0x1E →
      EchoesAfter shellMachine blankFrame promptKernel pre := by
    intro pre hpre
    rw [List.replicate_succ'] at hpre
    rcases List.prefix_concat_iff.mp hpre with heq | hpre
    · rw [heq, ← List.replicate_succ']
      exact hlast
    · exact hshown pre hpre
  have hroomy := (echoSafeDuring_iff promptKernel_echoStart (hkeys 128)).mp
    (echoSafeDuring_of_anchored (hkeys 128) hall)
  rw [Roomy, hwidest 128 (by decide), promptKernel_place.1, promptKernel_place.2.1] at hroomy
  exact absurd hroomy (by decide)

end Kernel
end KudOS
