import KudOS.CountedLoop
import KudOS.KernelState

/-!
# The terminal driver

`terminal.c` except for the half of `switch_terminal` that touches processes. Every
function acts on the entries of the per-terminal arrays selected by
`curr_terminal` and on the one page of video memory.
-/

namespace KudOS

@[simp] def height : ℕ := 25
@[simp] def width : ℕ := 80
@[simp] def videoMem : ℕ := 0xB8000
@[simp] def buffLen : ℕ := 128
@[simp] def bufferMaxSize : ℕ := 128

/-- Characters the driver tests for. -/
@[simp] def newlineChar : UInt8 := 10
@[simp] def backspaceChar : UInt8 := 8
@[simp] def blankSpace : UInt8 := 32

namespace Screen

/-- A store to one cell; the page has no cell at a larger index. -/
def write (v : Screen) (k : ℕ) (c : UInt16) : Screen := fun i => if i.val = k then c else v i

def read (v : Screen) (k : ℕ) : UInt16 := if h : k < 2048 then v ⟨k, h⟩ else 0

/-- `memset_word(terminal_ptr + base, c, n)`. -/
def memsetWord (v : Screen) (base : ℕ) (c : UInt16) (n : ℕ) : Screen :=
  fun i => if base ≤ i.val ∧ i.val < base + n then c else v i

end Screen

namespace Tty

/-! ## The entries of the active terminal -/

def curX (s : Tty) : ℤ := s.csrX s.currTerminal
def curY (s : Tty) : ℤ := s.csrY s.currTerminal
def curLineY (s : Tty) : ℤ := s.lineY s.currTerminal
def curLineBeginning (s : Tty) : ℤ := s.lineBeginning s.currTerminal
def curLen (s : Tty) : ℕ := s.bufferLen s.currTerminal

/-- The index of `terminal_buffer[t][0]` from the start of the array on. -/
def rowStart (t : TerminalId) : ℕ := buffLen * t.val

/-- `terminal_buffer[curr_terminal][i]`; from `i = 128` on, the rows that follow. -/
def curBuffer (s : Tty) (i : ℕ) : UInt8 := s.terminalBuffer (rowStart s.currTerminal + i)

def setX (s : Tty) (v : ℤ) : Tty := { s with csrX := Function.update s.csrX s.currTerminal v }
def setY (s : Tty) (v : ℤ) : Tty := { s with csrY := Function.update s.csrY s.currTerminal v }
def setLineY (s : Tty) (v : ℤ) : Tty :=
  { s with lineY := Function.update s.lineY s.currTerminal v }
def setLineBeginning (s : Tty) (v : ℤ) : Tty :=
  { s with lineBeginning := Function.update s.lineBeginning s.currTerminal v }
/-- `terminal_buffer[curr_terminal][i] = c`. -/
def storeBuffer (s : Tty) (i : ℕ) (c : UInt8) : Tty :=
  { s with terminalBuffer := Function.update s.terminalBuffer (rowStart s.currTerminal + i) c }
def setLen (s : Tty) (n : ℕ) : Tty :=
  { s with bufferLen := Function.update s.bufferLen s.currTerminal n }

/-- The cell of character `c` in the current colours. -/
def cell (s : Tty) (c : UInt8) : UInt16 := (c.toNat ||| (s.attrib <<< 8)).toUInt16

/-! ## Cursor, buffer and screen -/

/-- `move_csr`: the two bytes of the linear cursor position go to the VGA ports. -/
def moveCsr (s : Tty) : Tty :=
  let cursorLocation := ((s.curY * width + s.curX) % wordSize).toNat
  { s with
    cursorHigh := (cursorLocation >>> 8).toUInt8
    cursorLow := cursorLocation.toUInt8 }

/-- The copying half of `scroll`: rows move up by one and the last row is blanked. -/
def scrollRows (s : Tty) : Screen :=
  let moved := forLoop (height - 1)
    (fun i v => forLoop width
      (fun j v => v.write (i * width + j) (v.read ((i + 1) * width + j))) v) s.video
  forLoop width (fun j v => v.write ((height - 1) * width + j) (s.cell blankSpace)) moved

def scroll (s : Tty) : Tty :=
  if s.curY ≥ height then
    let s := { s with video := s.scrollRows }
    let s := s.setY (height - 1)
    let s := s.setLineY (s.curY - 1)
    s.setX 0
  else s

def clearBuffer (s : Tty) : Tty :=
  let s := { s with
    terminalBuffer := forLoop buffLen
      (fun i b => Function.update b (rowStart s.currTerminal + i) 0) s.terminalBuffer }
  s.setLen 0

def newLine (s : Tty) (resetBuffer : Bool) : Tty :=
  let s := s.setY (s.curY + 1)
  let s := s.setX 0
  let s := s.scroll
  let s := s.moveCsr
  let s := s.setLineY s.curY
  if resetBuffer then s.clearBuffer else s

def addToBuffer (s : Tty) (c : UInt8) : Tty :=
  if s.curLen < buffLen then
    (s.storeBuffer s.curLen c).setLen (s.curLen + 1)
  else s

def clearScreen (s : Tty) : Tty :=
  let s := { s with
    video := forLoop height (fun i v => v.memsetWord (i * width) (s.cell blankSpace) width) s.video }
  let s := s.clearBuffer
  let s := s.setX 0
  let s := s.setY 0
  let s := s.setLineY 0
  s.moveCsr

/-- The end of `putch`: wrap at the right edge, scroll, show the cursor. -/
def putchTail (s : Tty) : Tty :=
  let s := if s.curX ≥ width then (s.setX 0).setY (s.curY + 1) else s
  s.scroll.moveCsr

def putch (s : Tty) (c : UInt8) : Tty :=
  if c = newlineChar then (s.newLine true).putchTail
  else if c = backspaceChar then
    (if s.curX ≠ 0 then s.setX (s.curX - 1) else s).putchTail
  else if c ≥ blankSpace then
    if s.curY * width + s.curX ≥ pageSize4KB then s
    else
      -- the address of the cell, compared as an unsigned word
      let loc := (videoMem + 2 * (s.curY * width + s.curX)) % wordSize
      if loc ≥ videoMem + pageSize4KB ∨ loc < videoMem then s
      else
        let s := { s with video := s.video.write ((loc - videoMem) / 2).toNat (s.cell c) }
        (s.setX (s.curX + 1)).putchTail
  else if c = 0 then s
  else s.putchTail

/-- The loop of `print_buffer`. Its bound is read again in every iteration, and
`putch` of a newline empties the buffer. It never raises the bound, so the fuel of
`printBuffer` is not exhausted before the loop ends. -/
def printLoop : ℕ → ℕ → Tty → Tty
  | 0, _, s => s
  | n + 1, i, s => if i < s.curLen then printLoop n (i + 1) (s.putch (s.curBuffer i)) else s

def printBuffer (s : Tty) : Tty :=
  let s := s.setY s.curLineY
  let s := s.setX s.curLineBeginning
  printLoop s.curLen 0 s

/-- `backspace`. The length is a `uint16_t`. -/
def backspace (s : Tty) : Tty :=
  if s.curLen > 0 then
    let s := s.storeBuffer (s.curLen - 1) blankSpace
    let s := s.printBuffer
    let s := s.setLen ((s.curLen + (2 ^ 16 - 1)) % 2 ^ 16)
    s.moveCsr
  else s

/-! ## The file operations of the terminal -/

/-- `terminal_write`, with the number of bytes written. -/
def terminalWrite (s : Tty) (buf : Option (ℕ → UInt8)) (count : ℤ) : ℤ × Tty :=
  match buf with
  | none => (-1, s)
  | some buf =>
    let s := forLoop count.toNat (fun i s => s.putch (buf i)) s
    let s := s.setLineBeginning s.curX
    let s := s.setLineY s.curY
    (count.toNat, s.moveCsr)

/-- The copying loop of `terminal_read` from index `i` on; its conditions are tested
in the order of the source. -/
def readLoop (b : ℕ → UInt8) (count : ℤ) : ℕ → ℕ → List UInt8
  | 0, _ => []
  | n + 1, i =>
    if i < count ∧ b i ≠ 0 ∧ i < bufferMaxSize ∧ b i ≠ newlineChar then
      b i :: readLoop b count n (i + 1)
    else []

/-- `terminal_read`: the bytes stored to the caller's buffer, whose number is the
return value. While `enter_flag` is clear the call spins. -/
def terminalRead (s : Tty) (count : ℤ) : Except Stop (List UInt8 × Tty) :=
  if s.enterFlag then
    let line := readLoop s.curBuffer count bufferMaxSize 0
    .ok (line ++ [newlineChar], { s.newLine true with enterFlag := false })
  else .error .blocked

def keyboardInit (s : Tty) : Tty :=
  { s with enterFlag := false, ctrlFlag := false, capFlag := false, altFlag := false }

def terminalOpen (s : Tty) : Tty :=
  let s := { s with attrib := 0x0F }
  let s := s.keyboardInit
  let s := { s with
    currTerminal := terminal1
    lineBeginning := fun _ => 0
    csrX := fun _ => 0
    csrY := fun _ => 0
    lineY := fun _ => 0 }
  let s := s.clearScreen
  let blanks : Screen := fun _ => s.cell blankSpace
  { s with terminalMemory :=
      Function.update (Function.update s.terminalMemory terminal2 blanks) terminal3 blanks }

/-- The screen half of `switch_terminal`: save the video page of the active
terminal, show the one of terminal `t`, make `t` active. -/
def switchScreen (s : Tty) (t : TerminalId) : Tty :=
  let s := { s with terminalMemory := Function.update s.terminalMemory s.currTerminal s.video }
  let s := { s with video := s.terminalMemory t }
  let s := { s with currTerminal := t }
  s.moveCsr

/-- `printf` of a text without conversions. -/
def printText (s : Tty) (text : List UInt8) : Tty := text.foldl putch s

end Tty
end KudOS
