import KudOS.FocusedState
import KudOS.TerminalDriver

/-!
# The terminal operations are local to the active terminal

The three terminals are the components of a focused state: the view of a terminal is
its entry in each of the per-terminal arrays together with its screen, which is the
video page for the active terminal and the save area for the others. The rows of
`terminal_buffer` follow one another, so that printing and erasing a line are local only
while its length is at most that of a row.
-/

namespace KudOS
open Focus

/-- What belongs to one terminal. -/
@[ext] structure TermView where
  csrX : ℤ
  csrY : ℤ
  lineY : ℤ
  lineBeginning : ℤ
  terminalBuffer : Fin buffLen → UInt8
  bufferLen : ℕ
  screen : Screen

namespace Tty

def view (s : Tty) (t : TerminalId) : TermView where
  csrX := s.csrX t
  csrY := s.csrY t
  lineY := s.lineY t
  lineBeginning := s.lineBeginning t
  terminalBuffer i := s.terminalBuffer (rowStart t + i.val)
  bufferLen := s.bufferLen t
  screen := if t = s.currTerminal then s.video else s.terminalMemory t

/-- The terminals as components; the attribute byte is shared. -/
def focus : Focus Tty TerminalId TermView ℕ where
  active := currTerminal
  view := view
  shared := attrib

/-! ## What agreeing states have in common -/

section Observations

variable {s s' : Tty} (h : focus.Agree s s')
include h

theorem agree_curX : s.curX = s'.curX := congrArg TermView.csrX h.2
theorem agree_curY : s.curY = s'.curY := congrArg TermView.csrY h.2
theorem agree_curLineY : s.curLineY = s'.curLineY := congrArg TermView.lineY h.2
theorem agree_curLineBeginning : s.curLineBeginning = s'.curLineBeginning :=
  congrArg TermView.lineBeginning h.2
theorem agree_curBuffer {i : ℕ} (hi : i < buffLen) : s.curBuffer i = s'.curBuffer i :=
  congrFun (congrArg TermView.terminalBuffer h.2) ⟨i, hi⟩
theorem agree_curLen : s.curLen = s'.curLen := congrArg TermView.bufferLen h.2

theorem agree_video : s.video = s'.video := by
  simpa [focus, view] using congrArg TermView.screen h.2

theorem agree_cell (c : UInt8) : s.cell c = s'.cell c := by
  have ha : s.attrib = s'.attrib := h.1
  rw [cell, cell, ha]

theorem agree_write (k : ℕ) (c : UInt8) :
    s.video.write k (s.cell c) = s'.video.write k (s'.cell c) := by
  rw [agree_video h, agree_cell h]

theorem agree_scrollRows : s.scrollRows = s'.scrollRows := by
  rw [scrollRows, scrollRows, agree_video h, agree_cell h]

end Observations

/-! ## The stores -/

/-- A store to the active entries of the arrays and to the video page is local if the
values do not depend on the state. -/
private theorem local_of_view {f : Tty → Tty} {k : TermView → TermView}
    (hcur : ∀ s, (f s).currTerminal = s.currTerminal) (hattr : ∀ s, (f s).attrib = s.attrib)
    (hview : ∀ s t, (f s).view t = if t = s.currTerminal then k (s.view t) else s.view t) :
    focus.Local f := by
  have hactive : ∀ s, (f s).view (f s).currTerminal = k (s.view s.currTerminal) := by
    intro s
    rw [hcur, hview, if_pos rfl]
  refine fun s => ⟨hcur s, hattr s, fun i hi => ?_, fun s' h => ⟨hcur s', ?_, ?_⟩⟩
  · exact (hview s i).trans (if_neg hi)
  · exact (hattr s).trans (h.1.trans (hattr s').symm)
  · exact (hactive s).trans ((congrArg k h.2).trans (hactive s').symm)

theorem local_setX (v : ℤ) : focus.Local (fun s => s.setX v) :=
  local_of_view (k := fun w => { w with csrX := v }) (fun _ => rfl) (fun _ => rfl) fun s t => by
    by_cases ht : t = s.currTerminal <;> simp [view, setX, Function.update, ht]

theorem local_setY (v : ℤ) : focus.Local (fun s => s.setY v) :=
  local_of_view (k := fun w => { w with csrY := v }) (fun _ => rfl) (fun _ => rfl) fun s t => by
    by_cases ht : t = s.currTerminal <;> simp [view, setY, Function.update, ht]

theorem local_setLineY (v : ℤ) : focus.Local (fun s => s.setLineY v) :=
  local_of_view (k := fun w => { w with lineY := v }) (fun _ => rfl) (fun _ => rfl) fun s t => by
    by_cases ht : t = s.currTerminal <;> simp [view, setLineY, Function.update, ht]

theorem local_setLineBeginning (v : ℤ) : focus.Local (fun s => s.setLineBeginning v) :=
  local_of_view (k := fun w => { w with lineBeginning := v }) (fun _ => rfl) (fun _ => rfl)
    fun s t => by
      by_cases ht : t = s.currTerminal <;> simp [view, setLineBeginning, Function.update, ht]

theorem rowStart_add_inj {t u : TerminalId} {i j : ℕ} (hi : i < buffLen) (hj : j < buffLen) :
    rowStart t + i = rowStart u + j ↔ t = u ∧ i = j := by
  rw [rowStart, rowStart, buffLen] at *
  constructor
  · intro h
    have ht : t.val = u.val := by omega
    exact ⟨Fin.ext ht, by omega⟩
  · rintro ⟨rfl, rfl⟩
    rfl

theorem local_storeBuffer {i : ℕ} (hi : i < buffLen) (c : UInt8) :
    focus.Local (fun s => s.storeBuffer i c) := by
  refine local_of_view
    (k := fun w => { w with terminalBuffer := Function.update w.terminalBuffer ⟨i, hi⟩ c })
    (fun _ => rfl) (fun _ => rfl) fun s t => ?_
  have hrow : ((s.storeBuffer i c).view t).terminalBuffer = if t = s.currTerminal then
      Function.update (s.view t).terminalBuffer ⟨i, hi⟩ c else (s.view t).terminalBuffer := by
    funext j
    have hiff := rowStart_add_inj (t := t) (u := s.currTerminal) j.isLt hi
    by_cases ht : t = s.currTerminal
    · rw [if_pos ht]
      by_cases hj : j = ⟨i, hi⟩
      · rw [hj, Function.update_self]
        exact (Function.update_apply ..).trans (if_pos (by rw [ht]))
      · rw [Function.update_of_ne hj]
        exact Function.update_of_ne (fun h => hj (Fin.ext (hiff.mp h).2)) ..
    · rw [if_neg ht]
      exact Function.update_of_ne (fun h => ht (hiff.mp h).1) ..
  by_cases ht : t = s.currTerminal
  · rw [if_pos ht] at hrow ⊢
    exact TermView.ext rfl rfl rfl rfl hrow rfl rfl
  · rw [if_neg ht] at hrow ⊢
    exact TermView.ext rfl rfl rfl rfl hrow rfl rfl

theorem local_setLen (n : ℕ) : focus.Local (fun s => s.setLen n) :=
  local_of_view (k := fun w => { w with bufferLen := n }) (fun _ => rfl) (fun _ => rfl)
    fun s t => by by_cases ht : t = s.currTerminal <;> simp [view, setLen, Function.update, ht]

theorem local_setVideo (v : Screen) : focus.Local (fun s => { s with video := v }) :=
  local_of_view (k := fun w => { w with screen := v }) (fun _ => rfl) (fun _ => rfl)
    fun s t => by by_cases ht : t = s.currTerminal <;> simp [view, ht]

theorem local_moveCsr : focus.Local moveCsr :=
  local_of_view (k := fun w => w) (fun _ => rfl) (fun _ => rfl)
    fun s t => by simp [view, moveCsr]

/-! ## The functions of the driver -/

theorem local_scroll : focus.Local scroll :=
  (Local.ite (p := fun s : Tty => s.curY ≥ (height : ℤ)) (fun _ _ h => by rw [agree_curY h])
    (Local.comp (local_setX 0) (Local.comp
      (Local.dep (k := fun y (s : Tty) => s.setLineY (y - 1)) (fun _ _ h => agree_curY h)
        fun y => local_setLineY (y - 1))
      (Local.comp (local_setY _)
        (Local.dep (k := fun v (s : Tty) => { s with video := v }) (fun _ _ h => agree_scrollRows h)
          local_setVideo))))
    Local.id :)

/-- The loop stores to the row one index at a time. -/
theorem clearBuffer_eq (s : Tty) : s.clearBuffer =
    ((List.range buffLen).foldl (fun s i => s.storeBuffer i 0) s).setLen 0 := by
  have hloop : ∀ n, (List.range n).foldl (fun s i => s.storeBuffer i 0) s = { s with
      terminalBuffer := forLoop n
        (fun i b => Function.update b (rowStart s.currTerminal + i) 0) s.terminalBuffer } := by
    intro n
    induction n with
    | zero => rfl
    | succ n ih =>
      rw [List.range_succ, List.foldl_append, ih]
      rfl
  rw [hloop]
  rfl

theorem local_clearBuffer : focus.Local clearBuffer := by
  have hstores : ∀ n ≤ buffLen,
      focus.Local fun s => (List.range n).foldl (fun s i => s.storeBuffer i 0) s := by
    intro n
    induction n with
    | zero => exact fun _ => Local.id
    | succ n ih =>
      intro hn
      have hstep := Local.comp (local_storeBuffer (i := n) hn 0) (ih (Nat.le_of_succ_le hn))
      simpa only [List.range_succ, List.foldl_append, List.foldl_cons, List.foldl_nil] using hstep
  have hclear := Local.comp (local_setLen 0) (hstores buffLen le_rfl)
  simpa only [← clearBuffer_eq] using hclear

/-- The start of `new_line` and of the wrap in `putch`. -/
private theorem local_nextRow : focus.Local (fun s => s.setY (s.curY + 1)) :=
  (Local.dep (k := fun y (s : Tty) => s.setY (y + 1)) (fun _ _ h => agree_curY h)
    fun y => local_setY (y + 1) :)

private theorem local_lineYOfY : focus.Local (fun s => s.setLineY s.curY) :=
  (Local.dep (k := fun y (s : Tty) => s.setLineY y) (fun _ _ h => agree_curY h) local_setLineY :)

theorem local_newLine (resetBuffer : Bool) : focus.Local (fun s => s.newLine resetBuffer) := by
  have hrow : focus.Local fun s =>
      let s := s.setY (s.curY + 1)
      let s := s.setX 0
      let s := s.scroll
      let s := s.moveCsr
      s.setLineY s.curY :=
    Local.comp local_lineYOfY (Local.comp local_moveCsr (Local.comp local_scroll
      (Local.comp (local_setX 0) local_nextRow)))
  cases resetBuffer with
  | false => exact hrow
  | true => exact (Local.comp local_clearBuffer hrow :)

theorem local_addToBuffer (c : UInt8) : focus.Local (fun s => s.addToBuffer c) := fun s =>
  (LocalAt.ite (p := fun s : Tty => s.curLen < buffLen) (fun _ h => by rw [agree_curLen h])
    (fun hlt => LocalAt.dep
      (k := fun n (s : Tty) => (s.storeBuffer n c).setLen (n + 1)) (fun _ h => agree_curLen h)
      ((local_setLen _ _).comp (local_storeBuffer hlt c s)))
    (fun _ => LocalAt.id) :)

theorem local_clearScreen : focus.Local clearScreen :=
  (Local.comp local_moveCsr (Local.comp (local_setLineY 0) (Local.comp (local_setY 0)
    (Local.comp (local_setX 0) (Local.comp local_clearBuffer
      (Local.dep
        (o := fun s : Tty => forLoop height
          (fun i v => v.memsetWord (i * width) (s.cell blankSpace) width) s.video)
        (k := fun v (s : Tty) => { s with video := v })
        (fun _ _ h => by simp only [agree_video h, agree_cell h]) local_setVideo))))) :)

theorem local_putchTail : focus.Local putchTail :=
  (Local.comp local_moveCsr (Local.comp local_scroll
    (Local.ite (p := fun s : Tty => s.curX ≥ (width : ℤ)) (fun _ _ h => by rw [agree_curX h])
      (Local.comp local_nextRow (local_setX 0)) Local.id)) :)

/-- The branch of `putch` that stores a printable character. -/
private theorem local_putchPrint (c : UInt8) (k : ℕ) : focus.Local fun s =>
    let s := { s with video := s.video.write k (s.cell c) }
    (s.setX (s.curX + 1)).putchTail :=
  (Local.comp local_putchTail (Local.comp
    (Local.dep (k := fun x (s : Tty) => s.setX (x + 1)) (fun _ _ h => agree_curX h)
      fun x => local_setX (x + 1))
    (Local.dep (k := fun v (s : Tty) => { s with video := v })
      (fun _ _ h => agree_write h k c) local_setVideo)) :)

theorem local_putch (c : UInt8) : focus.Local (fun s => s.putch c) := by
  refine Local.ite (p := fun _ => c = newlineChar) (fun _ _ _ => Iff.rfl)
    (Local.comp local_putchTail (local_newLine true)) ?_
  refine Local.ite (p := fun _ => c = backspaceChar) (fun _ _ _ => Iff.rfl)
    (Local.comp local_putchTail
      (Local.ite (p := fun s : Tty => s.curX ≠ 0) (fun _ _ h => by rw [agree_curX h])
        (Local.dep (k := fun x (s : Tty) => s.setX (x - 1)) (fun _ _ h => agree_curX h)
          fun x => local_setX (x - 1)) Local.id)) ?_
  refine Local.ite (p := fun _ => c ≥ blankSpace) (fun _ _ _ => Iff.rfl) ?_
    (Local.ite (p := fun _ => c = 0) (fun _ _ _ => Iff.rfl) Local.id local_putchTail)
  -- all tests and the address depend on the position of the cursor only
  refine Local.dep (o := fun s : Tty => s.curY * (width : ℤ) + s.curX)
    (k := fun p (s : Tty) => if p ≥ pageSize4KB then s
      else
        let loc := (videoMem + 2 * p) % wordSize
        if loc ≥ videoMem + pageSize4KB ∨ loc < videoMem then s
        else
          let s := { s with video := s.video.write ((loc - videoMem) / 2).toNat (s.cell c) }
          (s.setX (s.curX + 1)).putchTail)
    (fun _ _ h => by rw [agree_curX h, agree_curY h]) fun p => ?_
  refine Local.ite (fun _ _ _ => Iff.rfl) Local.id ?_
  exact Local.ite (fun _ _ _ => Iff.rfl) Local.id (local_putchPrint c _)

/-! ## Lines that fit their row -/

@[simp] theorem curLen_scroll (s : Tty) : s.scroll.curLen = s.curLen := by
  rw [scroll]
  split <;> rfl

@[simp] theorem curLen_putchTail (s : Tty) : s.putchTail.curLen = s.curLen := by
  rw [putchTail]
  change (Tty.scroll _).curLen = _
  rw [curLen_scroll]
  split <;> rfl

theorem curLen_clearBuffer (s : Tty) : s.clearBuffer.curLen = 0 := Function.update_self ..

/-- A newline empties the buffer; no other character changes its length. -/
theorem curLen_putch_le (s : Tty) (c : UInt8) : (s.putch c).curLen ≤ s.curLen := by
  unfold putch
  split
  · have hzero : (s.newLine true).curLen = 0 := curLen_clearBuffer _
    rw [curLen_putchTail, hzero]
    exact Nat.zero_le _
  split
  · rw [curLen_putchTail]
    split <;> exact le_rfl
  split
  · split
    · exact le_rfl
    dsimp only
    split
    · exact le_rfl
    · rw [curLen_putchTail]
      exact le_rfl
  split
  · exact le_rfl
  · rw [curLen_putchTail]

theorem localAt_printLoop {s : Tty} (h : s.curLen ≤ buffLen) (n i : ℕ) :
    focus.LocalAt (printLoop n i) s := by
  induction n generalizing i s with
  | zero => exact LocalAt.id
  | succ n ih =>
    refine LocalAt.ite (p := fun s : Tty => i < s.curLen) (fun _ h => by rw [agree_curLen h])
      (fun hi => ?_) (fun _ => LocalAt.id)
    have hput : focus.LocalAt (fun s => s.putch (s.curBuffer i)) s :=
      LocalAt.dep (k := fun c (s : Tty) => s.putch c)
        (fun _ hag => agree_curBuffer hag (hi.trans_le h)) (local_putch _ s)
    exact LocalAt.comp (ih ((curLen_putch_le s _).trans h) (i + 1)) hput

theorem localAt_printBuffer {s : Tty} (h : s.curLen ≤ buffLen) : focus.LocalAt printBuffer s := by
  have hanchor : focus.Local fun s => (s.setY s.curLineY).setX s.curLineBeginning :=
    (Local.comp
      (Local.dep (k := fun x (s : Tty) => s.setX x) (fun _ _ h => agree_curLineBeginning h)
        local_setX)
      (Local.dep (k := fun y (s : Tty) => s.setY y) (fun _ _ h => agree_curLineY h) local_setY) :)
  have hloop : focus.LocalAt (fun s => printLoop s.curLen 0 s)
      ((s.setY s.curLineY).setX s.curLineBeginning) :=
    LocalAt.dep (k := fun n (s : Tty) => printLoop n 0 s) (fun _ h => agree_curLen h)
      (localAt_printLoop (s := (s.setY s.curLineY).setX s.curLineBeginning) h _ 0)
  exact (LocalAt.comp (g := fun s => printLoop s.curLen 0 s) hloop (hanchor s) :)

theorem localAt_backspace {s : Tty} (h : s.curLen ≤ buffLen) : focus.LocalAt backspace s := by
  refine LocalAt.ite (p := fun s : Tty => s.curLen > 0) (fun _ h => by rw [agree_curLen h])
    (fun hpos => ?_) (fun _ => LocalAt.id)
  have hstore : focus.LocalAt (fun s => s.storeBuffer (s.curLen - 1) blankSpace) s :=
    LocalAt.dep (k := fun n (s : Tty) => s.storeBuffer (n - 1) blankSpace)
      (fun _ h => agree_curLen h) (local_storeBuffer (by omega) _ s)
  have hdec : focus.Local fun s => s.setLen ((s.curLen + (2 ^ 16 - 1)) % 2 ^ 16) :=
    (Local.dep (k := fun n (s : Tty) => s.setLen ((n + (2 ^ 16 - 1)) % 2 ^ 16))
      (fun _ _ h => agree_curLen h) fun _ => local_setLen _ :)
  have hprint : focus.LocalAt printBuffer (s.storeBuffer (s.curLen - 1) blankSpace) :=
    localAt_printBuffer h
  exact (local_moveCsr _).comp ((hdec _).comp (hprint.comp hstore))

theorem printLoop_currTerminal (n i : ℕ) (s : Tty) :
    (printLoop n i s).currTerminal = s.currTerminal := by
  induction n generalizing i s with
  | zero => rfl
  | succ n ih =>
    rw [printLoop]
    split
    · rw [ih]
      exact (local_putch _ s).active
    · rfl

theorem printBuffer_currTerminal (s : Tty) : s.printBuffer.currTerminal = s.currTerminal :=
  printLoop_currTerminal _ _ _

theorem backspace_currTerminal (s : Tty) : s.backspace.currTerminal = s.currTerminal := by
  rw [backspace]
  split
  · exact printBuffer_currTerminal _
  · rfl

/-! ## Text output -/

theorem local_printText (text : List UInt8) : focus.Local (fun s => s.printText text) :=
  (Local.foldl (k := putch) local_putch text :)

theorem printText_currTerminal (s : Tty) (text : List UInt8) :
    (s.printText text).currTerminal = s.currTerminal :=
  (local_printText text s).active

theorem local_terminalWrite (buf : Option (ℕ → UInt8)) (count : ℤ) :
    focus.Local (fun s => (s.terminalWrite buf count).2) := by
  cases buf with
  | none => exact Local.id
  | some b =>
    exact Local.comp local_moveCsr (Local.comp local_lineYOfY (Local.comp
      (Local.dep (k := fun x (s : Tty) => s.setLineBeginning x) (fun _ _ h => agree_curX h)
        local_setLineBeginning)
      (Local.forLoop (fun i => local_putch (b i)) count.toNat)))

/-- Saving and restoring the screens changes no terminal's view. -/
theorem view_switchScreen (s : Tty) (t u : TerminalId) :
    (s.switchScreen t).view u = s.view u := by
  by_cases hu : u = t
  · subst hu
    by_cases hc : u = s.currTerminal <;> simp [view, switchScreen, moveCsr, Function.update, hc]
  · by_cases hc : u = s.currTerminal
    · have hct : ¬ s.currTerminal = t := hc ▸ hu
      simp [view, switchScreen, moveCsr, Function.update, hc, hct]
    · simp [view, switchScreen, moveCsr, Function.update, hu, hc]

theorem switches_switchScreen : focus.Switches switchScreen where
  active _ _ := rfl
  shared _ _ := rfl
  view := view_switchScreen

end Tty
end KudOS
