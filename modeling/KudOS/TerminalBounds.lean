import KudOS.ScreenCells
import KudOS.TerminalSwitching

/-!
# Index safety of the terminal driver

The cursor, the anchor of the input line and the buffer length of each terminal stay in
their ranges under any sequence of operations, and with them every access to the video
page and to the input buffer. The one exception is a Backspace in a line that contains
a newline: printing the line empties the buffer, and the length is decremented from 0.
-/

namespace KudOS

/-! ## Accesses -/

/-- A store to a cell of the video page or to the input buffer, or a printable byte that
the guards of `putch` dropped. -/
inductive Access where
  | cell (k : ℕ)
  | buffer (k : ℕ)
  | dropped
  deriving DecidableEq, Repr

def Access.Ok : Access → Prop
  | .cell k => k < 2000
  | .buffer k => k < 128
  | .dropped => False

namespace Tty

/-- The accesses of each function, in the order of the source. -/
def scrollAccesses (s : Tty) : List Access :=
  if s.curY ≥ height then
    ((List.range (height - 1)).flatMap fun i => (List.range width).map fun j =>
      .cell (i * width + j)) ++
    (List.range width).map fun j => .cell ((height - 1) * width + j)
  else []

def clearBufferAccesses : List Access := (List.range buffLen).map .buffer

def newLineAccesses (s : Tty) (resetBuffer : Bool) : List Access :=
  ((s.setY (s.curY + 1)).setX 0).scrollAccesses ++ if resetBuffer then clearBufferAccesses else []

def addToBufferAccesses (s : Tty) : List Access :=
  if s.curLen < buffLen then [.buffer s.curLen] else []

def clearScreenAccesses : List Access :=
  ((List.range height).flatMap fun i => (List.range width).map fun j => .cell (i * width + j)) ++
    clearBufferAccesses

def putchTailAccesses (s : Tty) : List Access :=
  (if s.curX ≥ width then (s.setX 0).setY (s.curY + 1) else s).scrollAccesses

def putchAccesses (s : Tty) (c : UInt8) : List Access :=
  if c = newlineChar then s.newLineAccesses true ++ (s.newLine true).putchTailAccesses
  else if c = backspaceChar then
    (if s.curX ≠ 0 then s.setX (s.curX - 1) else s).putchTailAccesses
  else if c ≥ blankSpace then
    if s.curY * width + s.curX ≥ pageSize4KB then [.dropped]
    else
      let loc := (videoMem + 2 * (s.curY * width + s.curX)) % wordSize
      if loc ≥ videoMem + pageSize4KB ∨ loc < videoMem then [.dropped]
      else
        let k := ((loc - videoMem) / 2).toNat
        let s := { s with video := s.video.write k (s.cell c) }
        .cell k :: (s.setX (s.curX + 1)).putchTailAccesses
  else if c = 0 then []
  else s.putchTailAccesses

def textAccesses : Tty → List UInt8 → List Access
  | _, [] => []
  | s, c :: text => s.putchAccesses c ++ (s.putch c).textAccesses text

def printLoopAccesses : ℕ → ℕ → Tty → List Access
  | 0, _, _ => []
  | n + 1, i, s =>
    if i < s.curLen then
      s.putchAccesses (s.curBuffer i) ++ printLoopAccesses n (i + 1) (s.putch (s.curBuffer i))
    else []

def printBufferAccesses (s : Tty) : List Access :=
  let s := s.setY s.curLineY
  let s := s.setX s.curLineBeginning
  printLoopAccesses s.curLen 0 s

def backspaceAccesses (s : Tty) : List Access :=
  if s.curLen > 0 then
    .buffer (s.curLen - 1) ::
      (s.storeBuffer (s.curLen - 1) blankSpace).printBufferAccesses
  else []

def terminalWriteAccesses (s : Tty) (buf : Option (ℕ → UInt8)) (count : ℤ) : List Access :=
  match buf with
  | none => []
  | some buf => s.textAccesses ((List.range count.toNat).map buf)

end Tty

/-- The operations of the terminal driver; `terminal_read` does a `newLine true`. -/
inductive ScreenOp where
  | op (o : TermOp)
  | scroll

def ScreenOp.apply : ScreenOp → Tty → Tty
  | .op o, y => o.apply y
  | .scroll, y => y.scroll

def ScreenOp.accesses (y : Tty) : ScreenOp → List Access
  | .op (.putch c) => y.putchAccesses c
  | .op (.newLine b) => y.newLineAccesses b
  | .op (.addToBuffer _) => y.addToBufferAccesses
  | .op .clearBuffer => Tty.clearBufferAccesses
  | .op .clearScreen => Tty.clearScreenAccesses
  | .op .printBuffer => y.printBufferAccesses
  | .op .backspace => y.backspaceAccesses
  | .op (.terminalWrite buf count) => y.terminalWriteAccesses buf count
  | .scroll => y.scrollAccesses

/-! ## Bounds of the active terminal -/

namespace Tty

/-- All five variables of the active terminal are in their ranges. -/
structure Bounded (s : Tty) : Prop extends OnScreen s where
  lineY_nonneg : 0 ≤ s.curLineY
  lineY_lt : s.curLineY < 25
  lineBeginning_nonneg : 0 ≤ s.curLineBeginning
  lineBeginning_lt : s.curLineBeginning < 80
  len_le : s.curLen ≤ 128

namespace Bounded

variable {s : Tty}

theorem moveCsr (h : s.Bounded) : s.moveCsr.Bounded :=
  ⟨h.toOnScreen.moveCsr, h.lineY_nonneg, h.lineY_lt, h.lineBeginning_nonneg, h.lineBeginning_lt,
    h.len_le⟩

theorem store (h : s.Bounded) (c : UInt8) : (s.store c).Bounded :=
  ⟨h.toOnScreen.store c, h.lineY_nonneg, h.lineY_lt, h.lineBeginning_nonneg, h.lineBeginning_lt,
    h.len_le⟩

theorem setX (h : s.Bounded) {v : ℤ} (h0 : 0 ≤ v) (h80 : v < 80) : (s.setX v).Bounded := by
  refine ⟨⟨?_, ?_, h.y_nonneg, h.y_lt⟩, h.lineY_nonneg, h.lineY_lt, h.lineBeginning_nonneg,
    h.lineBeginning_lt, h.len_le⟩
  · rwa [curX_setX]
  · rwa [curX_setX]

theorem setY (h : s.Bounded) {v : ℤ} (h0 : 0 ≤ v) (h25 : v < 25) : (s.setY v).Bounded := by
  refine ⟨⟨h.x_nonneg, h.x_lt, ?_, ?_⟩, h.lineY_nonneg, h.lineY_lt, h.lineBeginning_nonneg,
    h.lineBeginning_lt, h.len_le⟩
  · rwa [curY_setY]
  · rwa [curY_setY]

theorem setLineY (h : s.Bounded) {v : ℤ} (h0 : 0 ≤ v) (h25 : v < 25) : (s.setLineY v).Bounded := by
  refine ⟨h.toOnScreen.setLineY v, ?_, ?_, h.lineBeginning_nonneg, h.lineBeginning_lt, h.len_le⟩
  · rwa [curLineY_setLineY]
  · rwa [curLineY_setLineY]

theorem setLineBeginning (h : s.Bounded) {v : ℤ} (h0 : 0 ≤ v) (h80 : v < 80) :
    (s.setLineBeginning v).Bounded := by
  have hv : (s.setLineBeginning v).curLineBeginning = v := Function.update_self ..
  refine ⟨⟨h.x_nonneg, h.x_lt, h.y_nonneg, h.y_lt⟩, h.lineY_nonneg, h.lineY_lt, ?_, ?_, h.len_le⟩
  · rwa [hv]
  · rwa [hv]

theorem setLen (h : s.Bounded) {n : ℕ} (hn : n ≤ 128) : (s.setLen n).Bounded := by
  have hv : (s.setLen n).curLen = n := Function.update_self ..
  refine ⟨⟨h.x_nonneg, h.x_lt, h.y_nonneg, h.y_lt⟩, h.lineY_nonneg, h.lineY_lt,
    h.lineBeginning_nonneg, h.lineBeginning_lt, ?_⟩
  rwa [hv]

theorem memory (h : s.Bounded) (b : ℕ → UInt8) : Bounded { s with terminalBuffer := b } :=
  ⟨⟨h.x_nonneg, h.x_lt, h.y_nonneg, h.y_lt⟩, h.lineY_nonneg, h.lineY_lt, h.lineBeginning_nonneg,
    h.lineBeginning_lt, h.len_le⟩

theorem video (h : s.Bounded) (v : Screen) : Bounded { s with video := v } :=
  ⟨⟨h.x_nonneg, h.x_lt, h.y_nonneg, h.y_lt⟩, h.lineY_nonneg, h.lineY_lt, h.lineBeginning_nonneg,
    h.lineBeginning_lt, h.len_le⟩

theorem clearBuffer (h : s.Bounded) : s.clearBuffer.Bounded := (h.memory _).setLen (by decide)

theorem nextRow (h : s.Bounded) : s.nextRow.Bounded := by
  have hy := h.y_nonneg
  have hlt := h.y_lt
  by_cases hrow : s.curY + 1 < 25
  · rw [nextRow_of_lt hrow]
    exact (h.setY (by omega) hrow).setX le_rfl (by decide)
  · rw [nextRow_of_last (by omega)]
    exact (((h.video _).setY (by decide) (by decide)).setLineY (by decide) (by decide)).setX le_rfl
      (by decide)

theorem putch (h : s.Bounded) (c : UInt8) : (s.putch c).Bounded := by
  have hx := h.x_nonneg
  have hlt := h.x_lt
  have hres := putch_cases h.toOnScreen c
  generalize s.putch c = s' at hres ⊢
  cases hres with
  | newline hc =>
    have hnext := h.nextRow
    exact (hnext.setLineY hnext.y_nonneg hnext.y_lt).clearBuffer.moveCsr
  | inner hc hx => exact ((h.store c).setX (by omega) hx).moveCsr
  | edge hc hx => exact (h.store c).nextRow.moveCsr
  | backward hc hx => exact (h.setX (by omega) (by omega)).moveCsr
  | stay hc h0 => exact h.moveCsr
  | nul hc => exact h

theorem newLine (h : s.Bounded) (b : Bool) : (s.newLine b).Bounded := by
  have hnext := h.nextRow.moveCsr
  have hline := hnext.setLineY hnext.y_nonneg hnext.y_lt
  cases b with
  | false => exact hline
  | true => exact hline.clearBuffer

theorem addToBuffer (h : s.Bounded) (c : UInt8) : (s.addToBuffer c).Bounded := by
  rw [Tty.addToBuffer]
  split
  · rename_i hlt
    exact (h.memory _).setLen hlt
  · exact h

theorem clearScreen (h : s.Bounded) : s.clearScreen.Bounded :=
  (((((h.video _).clearBuffer).setX le_rfl (by decide)).setY le_rfl (by decide)).setLineY le_rfl
    (by decide)).moveCsr

theorem printLoop (n i : ℕ) (h : s.Bounded) : (printLoop n i s).Bounded :=
  printLoop_keeps (fun h c => h.putch c) h n i

theorem anchor (h : s.Bounded) : ((s.setY s.curLineY).setX s.curLineBeginning).Bounded :=
  (h.setY h.lineY_nonneg h.lineY_lt).setX h.lineBeginning_nonneg h.lineBeginning_lt

theorem printBuffer (h : s.Bounded) : s.printBuffer.Bounded := h.anchor.printLoop _ 0

theorem text (h : s.Bounded) (text : List UInt8) : (text.foldl Tty.putch s).Bounded := by
  induction text generalizing s with
  | nil => exact h
  | cons c text ih => exact ih (h.putch c)

theorem terminalWrite (h : s.Bounded) (buf : Option (ℕ → UInt8)) (count : ℤ) :
    (s.terminalWrite buf count).2.Bounded := by
  cases buf with
  | none => exact h
  | some b =>
    have htext := h.text ((List.range count.toNat).map b)
    rw [terminalWrite_eq]
    exact ((htext.setLineBeginning htext.x_nonneg htext.x_lt).setLineY htext.y_nonneg
      htext.y_lt).moveCsr

/-- Backspace keeps the bounds exactly if no newline precedes the last character. -/
theorem backspace (h : s.Bounded)
    (hline : ∀ k, k + 1 < s.curLen → s.curBuffer k ≠ newlineChar) : s.backspace.Bounded := by
  have hlen : s.backspace.curLen ≤ 128 := by
    have hle := h.len_le
    have herase : s.backspace.curLen = s.input.erase.len :=
      congrArg InputLine.len (input_backspace hline hle)
    rw [herase, InputLine.erase]
    split
    · change s.curLen - 1 ≤ 128
      omega
    · exact hle
  by_cases hpos : 0 < s.curLen
  · rw [backspace_of_pos hpos] at hlen ⊢
    have hdec : (s.blankedLine.curLen + (2 ^ 16 - 1)) % 2 ^ 16 ≤ 128 := by
      rw [← curLen_setLen (s := s.blankedLine) ((s.blankedLine.curLen + (2 ^ 16 - 1)) % 2 ^ 16)]
      exact hlen
    exact (((h.memory _).printBuffer).setLen hdec).moveCsr
  · rw [backspace_of_empty (by omega)]
    exact h

end Bounded

/-! ## No store is missing from the accesses -/

/-- Between the two states only the listed places of memory have changed. -/
structure Covers (acc : List Access) (s s' : Tty) : Prop where
  currTerminal : s'.currTerminal = s.currTerminal
  video : ∀ k, .cell k ∉ acc → s'.video.read k = s.video.read k
  buffer : ∀ k, (∀ i, .buffer i ∈ acc → k ≠ rowStart s.currTerminal + i) →
    s'.terminalBuffer k = s.terminalBuffer k

namespace Covers

variable {acc acc' : List Access} {s s' s'' : Tty}

theorem of_eq (hcur : s'.currTerminal = s.currTerminal) (hv : s'.video = s.video)
    (hb : s'.terminalBuffer = s.terminalBuffer) : Covers acc s s' :=
  ⟨hcur, fun k _ => by rw [hv], fun k _ => by rw [hb]⟩

theorem trans (h : Covers acc s s') (h' : Covers acc' s' s'') : Covers (acc ++ acc') s s'' where
  currTerminal := h'.currTerminal.trans h.currTerminal
  video k hk := by
    rw [List.mem_append, not_or] at hk
    rw [h'.video k hk.2, h.video k hk.1]
  buffer k hk := by
    have hk' := fun i hi => hk i (List.mem_append_right _ hi)
    rw [← h.currTerminal] at hk'
    rw [h'.buffer k hk', h.buffer k fun i hi => hk i (List.mem_append_left _ hi)]

/-- Steps before and after that touch neither the page nor the buffers. -/
theorem congr (h : Covers acc s s') {u u' : Tty} (hcur : s.currTerminal = u.currTerminal)
    (hv : s.video = u.video) (hb : s.terminalBuffer = u.terminalBuffer)
    (hcur' : u'.currTerminal = s'.currTerminal) (hv' : u'.video = s'.video)
    (hb' : u'.terminalBuffer = s'.terminalBuffer) : Covers acc u u' where
  currTerminal := hcur'.trans (h.currTerminal.trans hcur)
  video k hk := by rw [hv', h.video k hk, hv]
  buffer k hk := by
    rw [← hcur] at hk
    rw [hb', h.buffer k hk, hb]

theorem cons {a : Access} (h : Covers [a] s s') (h' : Covers acc s' s'') :
    Covers (a :: acc) s s'' := h.trans h'

theorem write (s : Tty) (k : ℕ) (c : UInt16) :
    Covers [.cell k] s { s with video := s.video.write k c } := by
  refine ⟨rfl, fun j hj => Screen.read_write_of_ne _ _ fun heq => hj ?_, fun j _ => rfl⟩
  rw [heq]
  exact List.mem_singleton_self _

theorem scroll (s : Tty) : Covers s.scrollAccesses s s.scroll := by
  rw [scrollAccesses, Tty.scroll]
  split
  · refine ⟨rfl, fun k hk => ?_, fun k _ => rfl⟩
    have hge : 2000 ≤ k := by
      by_contra hlt
      apply hk
      by_cases hlast : k < 1920
      · refine List.mem_append_left _ (List.mem_flatMap.mpr ⟨k / 80, List.mem_range.mpr ?_,
          List.mem_map.mpr ⟨k % 80, List.mem_range.mpr ?_, ?_⟩⟩)
        · rw [height]
          omega
        · rw [width]
          omega
        · rw [width, Nat.div_add_mod']
      · refine List.mem_append_right _ (List.mem_map.mpr ⟨k - 1920, List.mem_range.mpr ?_, ?_⟩)
        · rw [width]
          omega
        · have hk : (height - 1) * width + (k - 1920) = k := by
            rw [height, width]
            omega
          rw [hk]
    change s.scrollRows.read k = _
    rw [scrollRows_eq, Screen.read_scrolled_of_ge _ _ hge]
  · exact of_eq rfl rfl rfl

theorem storeBuffer (s : Tty) (i : ℕ) (c : UInt8) : Covers [.buffer i] s (s.storeBuffer i c) :=
  ⟨rfl, fun _ _ => rfl, fun _ hk => Function.update_of_ne (hk i (List.mem_singleton_self _)) ..⟩

theorem clearBuffer (s : Tty) : Covers clearBufferAccesses s s.clearBuffer := by
  refine ⟨rfl, fun k _ => rfl, fun k hk => ?_⟩
  have hstore := forLoop_store buffLen (rowStart s.currTerminal) (fun _ => (0 : UInt8))
    s.terminalBuffer
  change forLoop buffLen (fun i b => Function.update b (rowStart s.currTerminal + i) 0)
    s.terminalBuffer k = _
  rw [hstore]
  refine if_neg fun hrow => hk (k - rowStart s.currTerminal)
    (List.mem_map.mpr ⟨_, List.mem_range.mpr ?_, rfl⟩) ?_
  · omega
  · omega

theorem newLine (s : Tty) (b : Bool) : Covers (s.newLineAccesses b) s (s.newLine b) := by
  have hscroll := scroll ((s.setY (s.curY + 1)).setX 0)
  let u := ((s.setY (s.curY + 1)).setX 0).scroll.moveCsr
  have hline : Covers ((s.setY (s.curY + 1)).setX 0).scrollAccesses s (u.setLineY u.curY) :=
    hscroll.congr rfl rfl rfl rfl rfl rfl
  cases b with
  | false =>
    rw [newLineAccesses, if_neg (by decide), List.append_nil]
    exact hline
  | true => exact hline.trans (clearBuffer _)

theorem clearScreen (s : Tty) : Covers clearScreenAccesses s s.clearScreen := by
  have hblank : Covers ((List.range height).flatMap fun i => (List.range width).map fun j =>
      .cell (i * width + j)) s { s with video := s.video.blanked (s.cell blankSpace) } := by
    refine ⟨rfl, fun k hk => Screen.read_blanked_of_ge _ _ ?_, fun k _ => rfl⟩
    by_contra hlt
    refine hk (List.mem_flatMap.mpr ⟨k / 80, List.mem_range.mpr ?_,
      List.mem_map.mpr ⟨k % 80, List.mem_range.mpr ?_, ?_⟩⟩)
    · rw [height]
      omega
    · rw [width]
      omega
    · rw [width, Nat.div_add_mod']
  have hvideo : s.clearScreen.video = s.video.blanked (s.cell blankSpace) :=
    s.video.blankRows (s.cell blankSpace)
  exact (hblank.trans (clearBuffer _)).congr rfl rfl rfl rfl hvideo rfl

theorem putchTail (s : Tty) : Covers s.putchTailAccesses s s.putchTail := by
  rw [putchTailAccesses, Tty.putchTail]
  split
  · exact (scroll ((s.setX 0).setY (s.curY + 1))).congr rfl rfl rfl rfl rfl rfl
  · exact (scroll s).congr rfl rfl rfl rfl rfl rfl

theorem putch (s : Tty) (c : UInt8) : Covers (s.putchAccesses c) s (s.putch c) := by
  rw [putchAccesses, Tty.putch]
  split
  · exact (newLine s true).trans (putchTail _)
  split
  · split
    · exact (putchTail (s.setX (s.curX - 1))).congr rfl rfl rfl rfl rfl rfl
    · exact putchTail s
  split
  · split
    · exact of_eq rfl rfl rfl
    dsimp only
    split
    · exact of_eq rfl rfl rfl
    · exact (write s _ _).cons ((putchTail _).congr rfl rfl rfl rfl rfl rfl)
  split
  · exact of_eq rfl rfl rfl
  · exact putchTail s

theorem text (s : Tty) (text : List UInt8) :
    Covers (s.textAccesses text) s (text.foldl Tty.putch s) := by
  induction text generalizing s with
  | nil => exact of_eq rfl rfl rfl
  | cons c text ih => exact (putch s c).trans (ih (s.putch c))

theorem printLoop (n i : ℕ) (s : Tty) : Covers (printLoopAccesses n i s) s (printLoop n i s) := by
  induction n generalizing i s with
  | zero => exact of_eq rfl rfl rfl
  | succ n ih =>
    rw [printLoopAccesses, Tty.printLoop]
    split
    · exact (putch s _).trans (ih (i + 1) _)
    · exact of_eq rfl rfl rfl

theorem printBuffer (s : Tty) : Covers s.printBufferAccesses s s.printBuffer :=
  (printLoop s.curLen 0 ((s.setY s.curLineY).setX s.curLineBeginning)).congr rfl rfl rfl rfl rfl rfl

theorem backspace (s : Tty) : Covers s.backspaceAccesses s s.backspace := by
  rw [backspaceAccesses]
  split
  · rename_i hpos
    rw [backspace_of_pos hpos]
    exact ((storeBuffer s (s.curLen - 1) blankSpace).trans (printBuffer _)).congr
      rfl rfl rfl rfl rfl rfl
  · rename_i hzero
    rw [backspace_of_empty (by omega)]
    exact of_eq rfl rfl rfl

end Covers
end Tty

/-- Every change of the video page and of the buffers is by a listed access. -/
theorem ScreenOp.covers (o : ScreenOp) (y : Tty) : Tty.Covers (o.accesses y) y (o.apply y) := by
  cases o with
  | scroll => exact .scroll y
  | op o =>
    cases o with
    | putch c => exact .putch y c
    | newLine b => exact .newLine y b
    | addToBuffer c =>
      change Tty.Covers y.addToBufferAccesses y (y.addToBuffer c)
      rw [Tty.addToBufferAccesses, Tty.addToBuffer]
      split
      · exact (Tty.Covers.storeBuffer y y.curLen c).congr rfl rfl rfl rfl rfl rfl
      · exact .of_eq rfl rfl rfl
    | clearBuffer => exact .clearBuffer y
    | clearScreen => exact .clearScreen y
    | printBuffer => exact .printBuffer y
    | backspace => exact .backspace y
    | terminalWrite buf count =>
      cases buf with
      | none => exact .of_eq rfl rfl rfl
      | some b =>
        have htext := Tty.Covers.text y ((List.range count.toNat).map b)
        change Tty.Covers _ y (y.terminalWrite (some b) count).2
        rw [Tty.terminalWrite_eq]
        exact htext.congr rfl rfl rfl rfl rfl rfl

namespace Tty

/-! ## The accesses are in range -/

theorem scrollAccesses_ok (s : Tty) : ∀ a ∈ s.scrollAccesses, a.Ok := by
  intro a ha
  rw [scrollAccesses] at ha
  split at ha
  · rcases List.mem_append.mp ha with ha | ha
    · obtain ⟨i, hi, ha⟩ := List.mem_flatMap.mp ha
      obtain ⟨j, hj, rfl⟩ := List.mem_map.mp ha
      rw [List.mem_range, height] at hi
      rw [List.mem_range, width] at hj
      change i * width + j < 2000
      rw [width]
      omega
    · obtain ⟨j, hj, rfl⟩ := List.mem_map.mp ha
      rw [List.mem_range, width] at hj
      change (height - 1) * width + j < 2000
      rw [height, width]
      omega
  · cases ha

theorem clearBufferAccesses_ok : ∀ a ∈ clearBufferAccesses, a.Ok := by
  intro a ha
  obtain ⟨i, hi, rfl⟩ := List.mem_map.mp ha
  exact List.mem_range.mp hi

theorem newLineAccesses_ok (s : Tty) (b : Bool) : ∀ a ∈ s.newLineAccesses b, a.Ok := by
  intro a ha
  rcases List.mem_append.mp ha with ha | ha
  · exact scrollAccesses_ok _ a ha
  · cases b with
    | false => cases ha
    | true => exact clearBufferAccesses_ok a ha

theorem clearScreenAccesses_ok : ∀ a ∈ clearScreenAccesses, a.Ok := by
  intro a ha
  rcases List.mem_append.mp ha with ha | ha
  · obtain ⟨i, hi, ha⟩ := List.mem_flatMap.mp ha
    obtain ⟨j, hj, rfl⟩ := List.mem_map.mp ha
    rw [List.mem_range, height] at hi
    rw [List.mem_range, width] at hj
    change i * width + j < 2000
    rw [width]
    omega
  · exact clearBufferAccesses_ok a ha

/-- No printable byte is dropped, since the guards are idle. -/
theorem putchAccesses_ok {s : Tty} (h : s.OnScreen) (c : UInt8) :
    ∀ a ∈ s.putchAccesses c, a.Ok := by
  intro a ha
  rw [putchAccesses] at ha
  split at ha
  · rcases List.mem_append.mp ha with ha | ha
    · exact newLineAccesses_ok s true a ha
    · exact scrollAccesses_ok _ a ha
  split at ha
  · exact scrollAccesses_ok _ a ha
  split at ha
  · rw [if_neg (cursor_in_page h), cell_address h, if_neg (address_in_page h), address_cell] at ha
    rcases List.mem_cons.mp ha with rfl | ha
    · exact pos_lt h
    · exact scrollAccesses_ok _ a ha
  split at ha
  · cases ha
  · exact scrollAccesses_ok _ a ha

theorem textAccesses_ok {s : Tty} (h : s.Bounded) (text : List UInt8) :
    ∀ a ∈ s.textAccesses text, a.Ok := by
  induction text generalizing s with
  | nil => exact fun a ha => absurd ha List.not_mem_nil
  | cons c text ih =>
    intro a ha
    rcases List.mem_append.mp ha with ha | ha
    · exact putchAccesses_ok h.toOnScreen c a ha
    · exact ih (h.putch c) a ha

theorem printLoopAccesses_ok {s : Tty} (h : s.Bounded) (n i : ℕ) :
    ∀ a ∈ printLoopAccesses n i s, a.Ok := by
  induction n generalizing i s with
  | zero => exact fun a ha => absurd ha List.not_mem_nil
  | succ n ih =>
    intro a ha
    rw [printLoopAccesses] at ha
    split at ha
    · rcases List.mem_append.mp ha with ha | ha
      · exact putchAccesses_ok h.toOnScreen _ a ha
      · exact ih (h.putch _) (i + 1) a ha
    · cases ha

theorem printBufferAccesses_ok {s : Tty} (h : s.Bounded) : ∀ a ∈ s.printBufferAccesses, a.Ok :=
  printLoopAccesses_ok h.anchor _ 0

theorem backspaceAccesses_ok {s : Tty} (h : s.Bounded) : ∀ a ∈ s.backspaceAccesses, a.Ok := by
  intro a ha
  have hle := h.len_le
  rw [backspaceAccesses] at ha
  split at ha
  · rename_i hpos
    rcases List.mem_cons.mp ha with rfl | ha
    · change s.curLen - 1 < 128
      omega
    · exact printBufferAccesses_ok (h.memory _) a ha
  · cases ha

end Tty

/-- All accesses of an operation on a bounded terminal are in range. -/
theorem ScreenOp.accesses_ok {y : Tty} (h : y.Bounded) (o : ScreenOp) :
    ∀ a ∈ o.accesses y, a.Ok := by
  intro a ha
  cases o with
  | scroll => exact y.scrollAccesses_ok a ha
  | op o =>
    cases o with
    | putch c => exact Tty.putchAccesses_ok h.toOnScreen c a ha
    | newLine b => exact y.newLineAccesses_ok b a ha
    | addToBuffer c =>
      change a ∈ if y.curLen < buffLen then [Access.buffer y.curLen] else [] at ha
      split at ha
      · rename_i hlt
        rw [List.mem_singleton.mp ha]
        exact hlt
      · cases ha
    | clearBuffer => exact Tty.clearBufferAccesses_ok a ha
    | clearScreen => exact Tty.clearScreenAccesses_ok a ha
    | printBuffer => exact Tty.printBufferAccesses_ok h a ha
    | backspace => exact Tty.backspaceAccesses_ok h a ha
    | terminalWrite buf count =>
      cases buf with
      | none => cases ha
      | some b => exact Tty.textAccesses_ok h _ a ha

/-- No operation on a bounded terminal stores behind its row. -/
theorem Tty.Bounded.curBuffer_behind {y : Tty} (h : y.Bounded) (o : ScreenOp) {k : ℕ}
    (hk : buffLen ≤ k) : (o.apply y).curBuffer k = y.curBuffer k := by
  have hcovers := o.covers y
  rw [curBuffer, hcovers.currTerminal]
  refine hcovers.buffer _ fun i hi heq => ?_
  have hin : i < 128 := o.accesses_ok h _ hi
  rw [buffLen] at hk
  omega

/-! ## Whole runs -/

/-- The variables of one terminal are in their ranges. -/
structure TermView.InBounds (w : TermView) : Prop where
  csrX : 0 ≤ w.csrX ∧ w.csrX < 80
  csrY : 0 ≤ w.csrY ∧ w.csrY < 25
  lineY : 0 ≤ w.lineY ∧ w.lineY < 25
  lineBeginning : 0 ≤ w.lineBeginning ∧ w.lineBeginning < 80
  bufferLen : w.bufferLen ≤ 128

def Tty.AllInBounds (y : Tty) : Prop := ∀ t, (y.view t).InBounds

/-- Backspace is not used in a line with a newline before its last character. -/
def ScreenOp.Safe (y : Tty) : ScreenOp → Prop
  | .op .backspace => ∀ k, k + 1 < y.curLen → y.curBuffer k ≠ newlineChar
  | _ => True

theorem Tty.AllInBounds.bounded {y : Tty} (h : y.AllInBounds) : y.Bounded := by
  have hcur := h y.currTerminal
  exact ⟨⟨hcur.csrX.1, hcur.csrX.2, hcur.csrY.1, hcur.csrY.2⟩, hcur.lineY.1, hcur.lineY.2,
    hcur.lineBeginning.1, hcur.lineBeginning.2, hcur.bufferLen⟩

theorem Tty.Bounded.inBounds {y : Tty} (h : y.Bounded) : (y.view y.currTerminal).InBounds :=
  ⟨⟨h.x_nonneg, h.x_lt⟩, ⟨h.y_nonneg, h.y_lt⟩, ⟨h.lineY_nonneg, h.lineY_lt⟩,
    ⟨h.lineBeginning_nonneg, h.lineBeginning_lt⟩, h.len_le⟩

/-- An operation does not reach the other terminals. -/
theorem Tty.AllInBounds.apply {y : Tty} (h : y.AllInBounds) {f : Tty → Tty}
    (hf : focus.LocalAt f y) (hb : (f y).Bounded) : (f y).AllInBounds := by
  intro t
  have hactive : (f y).currTerminal = y.currTerminal := hf.active
  by_cases ht : t = y.currTerminal
  · have hin := hb.inBounds
    rwa [hactive, ← ht] at hin
  · have hview : (f y).view t = y.view t := hf.frame t ht
    rw [hview]
    exact h t

theorem ScreenOp.localAt_apply {y : Tty} (h : y.Bounded) (o : ScreenOp) :
    Tty.focus.LocalAt o.apply y := by
  cases o with
  | op o => exact o.localAt_apply h.len_le
  | scroll => exact Tty.local_scroll y

theorem ScreenOp.bounded {y : Tty} (h : y.Bounded) {o : ScreenOp} (ho : o.Safe y) :
    (o.apply y).Bounded := by
  cases o with
  | scroll =>
    change y.scroll.Bounded
    rw [Tty.scroll_of_lt h.y_lt]
    exact h
  | op o =>
    cases o with
    | putch c => exact h.putch c
    | newLine b => exact h.newLine b
    | addToBuffer c => exact h.addToBuffer c
    | clearBuffer => exact h.clearBuffer
    | clearScreen => exact h.clearScreen
    | printBuffer => exact h.printBuffer
    | backspace => exact h.backspace ho
    | terminalWrite buf count => exact h.terminalWrite buf count

theorem Tty.AllInBounds.text {y : Tty} (h : y.AllInBounds) (text : List UInt8) :
    (text.foldl putch y).AllInBounds := by
  induction text generalizing y with
  | nil => exact h
  | cons c text ih => exact ih (h.apply (local_putch c y) (h.bounded.putch c))

theorem Tty.AllInBounds.switchScreen {y : Tty} (h : y.AllInBounds) (t : TerminalId) :
    (y.switchScreen t).AllInBounds := by
  intro u
  rw [view_switchScreen]
  exact h u

/-- The buffers of all terminals are empty when `terminal_open` is called. -/
theorem Tty.allInBounds_terminalOpen {y : Tty} (h : ∀ t, y.bufferLen t = 0) :
    y.terminalOpen.AllInBounds := by
  have hzero : ∀ (f : TerminalId → ℤ) (v : ℤ) (t : TerminalId), (∀ u, f u = 0) → v = 0 →
      Function.update f terminal1 v t = 0 := by
    intro f v t hf hv
    by_cases ht : t = terminal1
    · rw [ht, Function.update_self, hv]
    · rw [Function.update_of_ne ht, hf]
  intro t
  have hx : y.terminalOpen.csrX t = 0 := hzero _ 0 t (fun _ => rfl) rfl
  have hy : y.terminalOpen.csrY t = 0 := hzero _ 0 t (fun _ => rfl) rfl
  have hline : y.terminalOpen.lineY t = 0 := hzero _ 0 t (fun _ => rfl) rfl
  have hlen : y.terminalOpen.bufferLen t = 0 := by
    change Function.update y.bufferLen terminal1 0 t = 0
    by_cases ht : t = terminal1
    · rw [ht, Function.update_self]
    · rw [Function.update_of_ne ht, h]
  refine ⟨?_, ?_, ?_, ?_, ?_⟩
  · change 0 ≤ y.terminalOpen.csrX t ∧ y.terminalOpen.csrX t < 80
    omega
  · change 0 ≤ y.terminalOpen.csrY t ∧ y.terminalOpen.csrY t < 25
    omega
  · change 0 ≤ y.terminalOpen.lineY t ∧ y.terminalOpen.lineY t < 25
    omega
  · change (0 : ℤ) ≤ 0 ∧ (0 : ℤ) < 80
    decide
  · change y.terminalOpen.bufferLen t ≤ 128
    omega

namespace Kernel

variable {m : Machine} {s s' : Kernel}

/-- The runs after `terminal_open` whose operations meet `ok`. -/
inductive ScreenRun (m : Machine) (ok : Tty → ScreenOp → Prop) : Kernel → Prop where
  | start {s : Kernel} (h₀ : ∀ t, s.tty.bufferLen t = 0) :
      ScreenRun m ok (s.onTty Tty.terminalOpen)
  | op {s : Kernel} (h : ScreenRun m ok s) (o : ScreenOp) (ho : ok s.tty o) :
      ScreenRun m ok (s.onTty o.apply)
  | switchTerminal {s s' : Kernel} {fr : StackFrame} {t : TerminalId} (h : ScreenRun m ok s)
      (hx : s.switchTerminal m fr t = .ok s') : ScreenRun m ok s'

/-- `switch_terminal` prints a message when no shell can be started. -/
def switchAccesses (s : Kernel) (t : TerminalId) : List Access :=
  if t = s.tty.currTerminal then []
  else if (s.shown t).curPcb.programId = 0 ∧ inc32 s.processNumber ≥ maxProcesses then
    (s.tty.switchScreen t).textAccesses limitMessage
  else []

/-- What the screen half of a switch and text output keep, `switch_terminal` keeps. -/
theorem switchTerminal_keeps {fr : StackFrame} {t : TerminalId} {P : Tty → Prop}
    (hswitch : ∀ {y}, P y → P (y.switchScreen t))
    (htext : ∀ {y}, P y → ∀ text : List UInt8, P (text.foldl Tty.putch y)) (h : P s.tty)
    (hx : s.switchTerminal m fr t = .ok s') : P s'.tty := by
  rw [switchTerminal_tty hx, switchEvents]
  split
  · exact h
  · rw [List.foldl_cons]
    split
    · rw [List.foldl_map]
      exact htext (hswitch h) limitMessage
    · exact hswitch h

theorem switchAccesses_ok (h : s.tty.AllInBounds) (t : TerminalId) :
    ∀ a ∈ s.switchAccesses t, a.Ok := by
  intro a ha
  rw [switchAccesses] at ha
  split at ha
  · cases ha
  split at ha
  · exact Tty.textAccesses_ok (h.switchScreen t).bounded limitMessage a ha
  · cases ha

theorem ScreenRun.inBounds (h : ScreenRun m ScreenOp.Safe s) : s.tty.AllInBounds := by
  induction h with
  | start h₀ => exact Tty.allInBounds_terminalOpen h₀
  | op _ o ho ih => exact ih.apply (o.localAt_apply ih.bounded) (o.bounded ih.bounded ho)
  | switchTerminal _ hx ih =>
    exact switchTerminal_keeps (fun h => h.switchScreen _) Tty.AllInBounds.text ih hx

/-- In every state of a run without an unsafe Backspace, the variables of all terminals
are in their ranges, and whatever operation comes next accesses the video page and the
buffer in range and drops no printable byte. -/
theorem terminal_indices_safe (h : ScreenRun m ScreenOp.Safe s) :
    s.tty.AllInBounds ∧ (∀ (o : ScreenOp), ∀ a ∈ o.accesses s.tty, a.Ok) ∧
      ∀ t, ∀ a ∈ s.switchAccesses t, a.Ok :=
  ⟨h.inBounds, fun o => o.accesses_ok h.inBounds.bounded, switchAccesses_ok h.inBounds⟩

/-- A character is printed on the first terminal. -/
theorem printed_indices_safe :
    ((bootKernel.onTty Tty.terminalOpen).onTty (ScreenOp.op (.putch 65)).apply).tty.AllInBounds :=
  (terminal_indices_safe (m := shellMachine)
    (.op (.start fun _ => rfl) (.op (.putch 65)) trivial)).1

/-- A newline and a character in the buffer, and a Backspace: the length becomes 65535. -/
theorem backspace_underflow : ∃ s, ScreenRun shellMachine (fun _ _ => True) s ∧
    s.tty.bufferLen terminal1 = 65535 ∧ ¬ s.tty.AllInBounds := by
  have h1 : ScreenRun shellMachine (fun _ _ => True) (bootKernel.onTty Tty.terminalOpen) :=
    .start fun _ => rfl
  have h2 := (h1.op (.op (.addToBuffer 10)) trivial).op (.op (.addToBuffer 97)) trivial
  have h3 := h2.op (.op .backspace) trivial
  have hover : ∀ {y : Tty}, y.bufferLen terminal1 = 65535 → ¬ y.AllInBounds := by
    intro y hlen hin
    have hle : y.bufferLen terminal1 ≤ 128 := (hin terminal1).bufferLen
    omega
  have hlen : ((((bootKernel.onTty Tty.terminalOpen).onTty (ScreenOp.op (.addToBuffer 10)).apply).onTty
      (ScreenOp.op (.addToBuffer 97)).apply).onTty (ScreenOp.op .backspace).apply).tty.bufferLen
      terminal1 = 65535 := by
    decide +kernel
  exact ⟨_, h3, hlen, hover hlen⟩

end Kernel
end KudOS
