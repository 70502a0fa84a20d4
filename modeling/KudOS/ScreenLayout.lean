import KudOS.ScreenCells
import KudOS.ShellStart
import Mathlib.Data.List.GetD

/-!
# Program output on the screen

The reference layout breaks a text into rows of 80 columns without a bound on their
number. After any sequence of `terminal_write` calls the screen shows the last 25 rows
of it, whether the rows were broken by a newline or by the right edge.
-/

namespace KudOS

/-! ## The reference layout -/

/-- The rows that are finished and the row being filled. -/
structure Layout where
  above : List (List UInt8)
  last : List UInt8

namespace Layout

def rows (l : Layout) : List (List UInt8) := l.above ++ [l.last]

def openRow (l : Layout) : Layout := ⟨l.above ++ [l.last], []⟩

def append (l : Layout) (c : UInt8) : Layout := { l with last := l.last ++ [c] }

/-- A row is finished by a newline, and as soon as it holds 80 bytes. -/
def put (l : Layout) (c : UInt8) : Layout :=
  if c = newlineChar then l.openRow
  else if (l.append c).last.length = 80 then (l.append c).openRow
  else l.append c

/-- The layout of a text, from one empty row on. -/
def ofBytes (bytes : List UInt8) : Layout := bytes.foldl put ⟨[], []⟩

/-- The character at row `r` and column `col` of a screen that shows the last 25 rows,
padded with blanks. -/
def shown (l : Layout) (r col : ℕ) : UInt8 :=
  ((l.rows.drop (l.rows.length - 25)).getD r []).getD col blankSpace

variable (l : Layout) (c : UInt8) {r col : ℕ}

theorem shown_eq : l.shown r col =
    (l.rows.getD (l.above.length - 24 + r) []).getD col blankSpace := by
  have hlen : l.rows.length - 25 = l.above.length - 24 := by
    rw [rows, List.length_append, List.length_singleton]
    omega
  have hrow : (l.rows.drop (l.above.length - 24)).getD r [] =
      l.rows.getD (l.above.length - 24 + r) [] := by
    rw [List.getD_eq_getElem?_getD, List.getElem?_drop, ← List.getD_eq_getElem?_getD]
  rw [shown, hlen, hrow]

theorem rows_getD_last : l.rows.getD l.above.length [] = l.last := by
  rw [rows, List.getD_append_right _ _ _ _ le_rfl, Nat.sub_self]
  rfl

theorem rows_getD_of_ne {k : ℕ} (hk : k ≠ l.above.length) :
    (l.append c).rows.getD k [] = l.rows.getD k [] := by
  rw [rows, rows, append]
  by_cases hlt : k < l.above.length
  · rw [List.getD_append _ _ _ _ hlt, List.getD_append _ _ _ _ hlt]
  · rw [List.getD_eq_default _ _ (by simp; omega), List.getD_eq_default _ _ (by simp; omega)]

/-- The new character stands in the row of the cursor, behind the others. -/
theorem shown_append : (l.append c).shown r col =
    if r = min l.above.length 24 ∧ col = l.last.length then c else l.shown r col := by
  rw [shown_eq, shown_eq]
  change ((l.append c).rows.getD (l.above.length - 24 + r) []).getD col blankSpace = _
  by_cases hr : l.above.length - 24 + r = l.above.length
  · have hrow : r = min l.above.length 24 := by omega
    have hlast := (l.append c).rows_getD_last
    change (l.append c).rows.getD l.above.length [] = l.last ++ [c] at hlast
    rw [hr, hlast, rows_getD_last]
    by_cases hcol : col = l.last.length
    · rw [if_pos ⟨hrow, hcol⟩, hcol, List.getD_append_right _ _ _ _ le_rfl, Nat.sub_self]
      rfl
    · rw [if_neg (fun h => hcol h.2)]
      by_cases hlt : col < l.last.length
      · rw [List.getD_append _ _ _ _ hlt]
      · rw [List.getD_eq_default _ _ (by simp; omega), List.getD_eq_default _ _ (by omega)]
  · have hrow : ¬ r = min l.above.length 24 := by omega
    rw [if_neg (fun h => hrow h.1), rows_getD_of_ne l c hr]

theorem openRow_rows_getD (k : ℕ) : l.openRow.rows.getD k [] = l.rows.getD k [] := by
  change (l.rows ++ [[]]).getD k [] = _
  by_cases hlt : k < l.rows.length
  · rw [List.getD_append _ _ _ _ hlt]
  · rw [List.getD_append_right _ _ _ _ (by omega), List.getD_eq_default _ _ (n := k) (by omega)]
    cases k - l.rows.length <;> rfl

theorem openRow_above_length : l.openRow.above.length = l.above.length + 1 := by
  rw [openRow, List.length_append, List.length_singleton]

/-- While there are fewer than 25 rows a new one changes nothing. -/
theorem shown_openRow_of_lt (h : l.above.length < 24) : l.openRow.shown r col = l.shown r col := by
  have hskip : l.above.length + 1 - 24 = l.above.length - 24 := by omega
  rw [shown_eq, shown_eq, openRow_above_length, openRow_rows_getD, hskip]

/-- From then on all rows move up. -/
theorem shown_openRow_of_le (h : 24 ≤ l.above.length) :
    l.openRow.shown r col = if r < 24 then l.shown (r + 1) col else blankSpace := by
  have hskip : l.above.length + 1 - 24 + r = l.above.length - 24 + (r + 1) := by omega
  rw [shown_eq, openRow_above_length, openRow_rows_getD, hskip]
  split
  · rw [shown_eq]
  · have hnone : l.rows.getD (l.above.length - 24 + (r + 1)) [] = [] := by
      refine List.getD_eq_default _ _ ?_
      rw [rows, List.length_append, List.length_singleton]
      omega
    rw [hnone]
    rfl

end Layout

/-! ## Screens that show a layout -/

/-- The 25 rows of the screen show the layout; `f c` is the cell of the character `c`. -/
def Displays (v : Screen) (f : UInt8 → UInt16) (l : Layout) : Prop :=
  ∀ r < 25, ∀ col < 80, v.read (r * 80 + col) = f (l.shown r col)

namespace Displays

variable {v : Screen} {f : UInt8 → UInt16} {l : Layout}

theorem append (h : Displays v f l) (c : UInt8) (hlast : l.last.length < 80) :
    Displays (v.write (min l.above.length 24 * 80 + l.last.length) (f c)) f (l.append c) := by
  intro r hr col hcol
  rw [Screen.read_write _ _ _ (by omega), Layout.shown_append, h r hr col hcol]
  have hiff : (r * 80 + col = min l.above.length 24 * 80 + l.last.length) ↔
      (r = min l.above.length 24 ∧ col = l.last.length) := by omega
  simp only [hiff]
  split <;> rfl

theorem openRow_of_lt (h : Displays v f l) (hlt : l.above.length < 24) :
    Displays v f l.openRow := by
  intro r hr col hcol
  rw [Layout.shown_openRow_of_lt l hlt]
  exact h r hr col hcol

theorem openRow_of_le (h : Displays v f l) (hle : 24 ≤ l.above.length) :
    Displays (v.scrolled (f blankSpace)) f l.openRow := by
  intro r hr col hcol
  rw [Screen.read_scrolled _ _ (by omega), Layout.shown_openRow_of_le l hle]
  by_cases hr' : r < 24
  · have hnext : r * 80 + col + 80 = (r + 1) * 80 + col := by omega
    rw [if_pos (by omega), if_pos hr', hnext]
    exact h (r + 1) (by omega) col hcol
  · rw [if_neg (by omega), if_neg hr']

end Displays

/-- The terminal shows the layout, with its cursor behind the last row. -/
structure Tty.Shows (s : Tty) (f : UInt8 → UInt16) (l : Layout) : Prop where
  cell : s.cell = f
  displays : Displays s.video f l
  last_lt : l.last.length < 80
  curX : s.curX = l.last.length
  curY : s.curY = min l.above.length 24

namespace Tty.Shows

variable {s : Tty} {f : UInt8 → UInt16} {l : Layout}

theorem onScreen (h : s.Shows f l) : s.OnScreen := by
  have hx := h.curX
  have hy := h.curY
  have hlast := h.last_lt
  exact ⟨by omega, by omega, by omega, by omega⟩

theorem pos_eq (h : s.Shows f l) : s.pos = min l.above.length 24 * 80 + l.last.length := by
  have hpos := Tty.pos_eq h.onScreen
  have hx := h.curX
  have hy := h.curY
  omega

/-- The next row opens a new row of the layout; the row before it may be full. -/
theorem nextRow (hcell : s.cell = f) (hd : Displays s.video f l)
    (hy : s.curY = min l.above.length 24) : s.nextRow.Shows f l.openRow := by
  have hlen := l.openRow_above_length
  have hempty : l.openRow.last.length < 80 := Nat.zero_lt_succ 79
  by_cases hlt : l.above.length < 24
  · rw [nextRow_of_lt (by omega)]
    refine ⟨hcell, hd.openRow_of_lt hlt, hempty, curX_setX 0, ?_⟩
    rw [curY_setX, curY_setY, hlen]
    omega
  · rw [nextRow_of_last (by omega), hcell]
    refine ⟨hcell, hd.openRow_of_le (by omega), hempty, curX_setX 0, ?_⟩
    rw [hlen]
    have h24 : ((({ s with video := s.video.scrolled (f blankSpace) }.setY 24).setLineY 23).setX
        0).curY = 24 := Function.update_self ..
    rw [h24]
    omega

theorem moveCsr (h : s.Shows f l) : s.moveCsr.Shows f l :=
  ⟨h.cell, h.displays, h.last_lt, h.curX, h.curY⟩

theorem store (h : s.Shows f l) (c : UInt8) : Displays (s.store c).video f (l.append c) := by
  have hstore := h.displays.append c h.last_lt
  rw [← h.pos_eq, ← h.cell] at hstore
  rw [← h.cell]
  exact hstore

theorem append_length (l : Layout) (c : UInt8) : (l.append c).last.length = l.last.length + 1 := by
  rw [Layout.append, List.length_append, List.length_singleton]

theorem putch (h : s.Shows f l) {c : UInt8} (hc : blankSpace ≤ c ∨ c = newlineChar) :
    (s.putch c).Shows f (l.put c) := by
  have hx := h.curX
  have hlast := h.last_lt
  have hlen := append_length l c
  by_cases hnl : c = newlineChar
  · have hnext := nextRow h.cell h.displays h.curY
    rw [Layout.put, if_pos hnl, hnl, putch_newline h.onScreen]
    generalize s.nextRow = s' at hnext ⊢
    exact ⟨hnext.cell, hnext.displays, hnext.last_lt, hnext.curX, hnext.curY⟩
  have hprint := hc.resolve_right hnl
  rw [Layout.put, if_neg hnl]
  by_cases hfull : (l.append c).last.length = 80
  · rw [if_pos hfull, putch_edge h.onScreen hprint (by omega)]
    exact (nextRow (s := s.store c) h.cell (h.store c) h.curY).moveCsr
  · rw [if_neg hfull, putch_inner h.onScreen hprint (by omega)]
    refine ⟨h.cell, h.store c, by omega, ?_, h.curY⟩
    rw [curX_moveCsr, curX_setX]
    omega

end Tty.Shows

/-! ## Calls of terminal_write -/

/-- A call with the buffer and the count that a program passes. -/
structure WriteCall where
  buf : ℕ → UInt8
  count : ℕ

def WriteCall.bytes (w : WriteCall) : List UInt8 := (List.range w.count).map w.buf

namespace Tty

variable {s : Tty} {f : UInt8 → UInt16} {l : Layout}

def write (s : Tty) (w : WriteCall) : Tty := (s.terminalWrite (some w.buf) w.count).2

theorem Shows.text {bytes : List UInt8} (h : s.Shows f l)
    (hbytes : ∀ c ∈ bytes, blankSpace ≤ c ∨ c = newlineChar) :
    (bytes.foldl Tty.putch s).Shows f (bytes.foldl Layout.put l) := by
  induction bytes generalizing s l with
  | nil => exact h
  | cons c bytes ih =>
    exact ih (h.putch (hbytes c List.mem_cons_self)) fun d hd => hbytes d (List.mem_cons_of_mem c hd)

theorem write_eq (s : Tty) (w : WriteCall) :
    s.write w = (w.bytes.foldl putch s).setAnchor := by
  rw [write, terminalWrite_eq, Int.toNat_natCast]
  rfl

/-- One call; the prompt ends at the cursor. -/
theorem Shows.write (h : s.Shows f l) {w : WriteCall}
    (hw : ∀ c ∈ w.bytes, blankSpace ≤ c ∨ c = newlineChar) :
    (s.write w).Shows f (w.bytes.foldl Layout.put l) ∧
      (s.write w).curLineBeginning = (s.write w).curX ∧
      (s.write w).curLineY = (s.write w).curY := by
  have htext := h.text hw
  rw [write_eq]
  exact ⟨⟨htext.cell, htext.displays, htext.last_lt, htext.curX, htext.curY⟩,
    curLineBeginning_setAnchor _, curLineY_setAnchor _⟩

theorem clearScreen_shows (s : Tty) : s.clearScreen.Shows s.cell ⟨[], []⟩ := by
  refine ⟨rfl, fun r hr col hcol => ?_, by decide, Function.update_self .., Function.update_self ..⟩
  have hvideo : s.clearScreen.video = s.video.blanked (s.cell blankSpace) :=
    s.video.blankRows (s.cell blankSpace)
  have hblank : (⟨[], []⟩ : Layout).shown r col = blankSpace := by
    cases r <;> rfl
  rw [hvideo, Screen.read_blanked _ _ (by omega), hblank]

/-- By induction on the calls. -/
theorem Shows.writes {calls : List WriteCall} (h : s.Shows f l)
    (hcalls : ∀ w ∈ calls, ∀ c ∈ w.bytes, blankSpace ≤ c ∨ c = newlineChar) :
    (calls.foldl Tty.write s).Shows f ((calls.flatMap WriteCall.bytes).foldl Layout.put l) := by
  induction calls generalizing s l with
  | nil => exact h
  | cons w calls ih =>
    rw [List.foldl_cons, List.flatMap_cons, List.foldl_append]
    exact ih (h.write (hcalls w List.mem_cons_self)).1 fun v hv => hcalls v (List.mem_cons_of_mem w hv)

/-- The row of the input line follows the cursor, and so does its column from the first
call on. -/
theorem writes_anchor (s : Tty) (calls : List WriteCall) :
    ((s.curLineY = s.curY ∨ calls ≠ []) →
      (calls.foldl Tty.write s).curLineY = (calls.foldl Tty.write s).curY) ∧
    (calls ≠ [] →
      (calls.foldl Tty.write s).curLineBeginning = (calls.foldl Tty.write s).curX) := by
  rcases List.eq_nil_or_concat calls with rfl | ⟨calls, w, rfl⟩
  · exact ⟨fun h => h.resolve_right fun hne => hne rfl, fun h => absurd rfl h⟩
  · rw [List.concat_eq_append, List.foldl_append, List.foldl_cons, List.foldl_nil, write_eq]
    exact ⟨fun _ => curLineY_setAnchor _, fun _ => curLineBeginning_setAnchor _⟩

/-- However a text of printable bytes and newlines is divided into calls of
`terminal_write` after `clear_screen`, the screen shows the last 25 rows of its layout
with the cursor behind them, and every call returns its count. -/
theorem written_text_shown (s : Tty) (calls : List WriteCall)
    (hcalls : ∀ w ∈ calls, ∀ c ∈ w.bytes, blankSpace ≤ c ∨ c = newlineChar) :
    let l := Layout.ofBytes (calls.flatMap WriteCall.bytes)
    let s' := calls.foldl Tty.write s.clearScreen
    (∀ r < 25, ∀ col < 80, s'.video.read (r * 80 + col) = s.cell (l.shown r col)) ∧
    s'.curX = l.last.length ∧ s'.curY = min (l.rows.length - 1) 24 ∧ s'.curLineY = s'.curY ∧
    (calls ≠ [] → s'.curLineBeginning = s'.curX) ∧
    ∀ w ∈ calls, ∀ u : Tty, (u.terminalWrite (some w.buf) w.count).1 = w.count := by
  intro l s'
  have hshows : s'.Shows s.cell l := s.clearScreen_shows.writes hcalls
  have hanchor := s.clearScreen.writes_anchor calls
  have hstart : s.clearScreen.curLineY = s.clearScreen.curY := by
    rw [s.clearScreen_shows.curY]
    exact Function.update_self ..
  refine ⟨hshows.displays, hshows.curX, ?_, hanchor.1 (Or.inl hstart), hanchor.2, fun w _ u => ?_⟩
  · rw [hshows.curY, Layout.rows, List.length_append, List.length_singleton]
    omega
  · exact congrArg Int.ofNat (Int.toNat_natCast w.count)

/-- Two rows, in two calls. -/
def twoRows : List WriteCall := [⟨cString (literal "ab\nc"), 4⟩, ⟨cString (literal "d"), 1⟩]

theorem twoRows_shown : (twoRows.foldl Tty.write blankTty.clearScreen).curX = 2 ∧
    (twoRows.foldl Tty.write blankTty.clearScreen).curY = 1 ∧
    (twoRows.foldl Tty.write blankTty.clearScreen).video.read 81 = blankTty.cell 100 := by
  have htext := written_text_shown blankTty twoRows (by decide +kernel)
  refine ⟨htext.2.1.trans (by decide +kernel), htext.2.2.1.trans (by decide +kernel), ?_⟩
  exact (htext.1 1 (by decide) 1 (by decide)).trans (by decide +kernel)

end Tty
end KudOS
