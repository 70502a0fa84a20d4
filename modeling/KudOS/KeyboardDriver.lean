import KudOS.SystemCalls

/-!
# The keyboard driver

`keyboard.c`: the two scan-code tables and the interrupt handler, which edits the
input line of the active terminal, switches terminals and halts on Ctrl-C.
-/

namespace KudOS

/-- Scan codes the handler tests for. -/
@[simp] def keyRelease : UInt8 := 0x80
@[simp] def backspaceCode : UInt8 := 0x0E
@[simp] def lCtrl : UInt8 := 0x1D
@[simp] def lCtrlRelease : UInt8 := 0x9D
@[simp] def lButton : UInt8 := 0x26
@[simp] def cButton : UInt8 := 0x2E
@[simp] def lshift : UInt8 := 0x2A
@[simp] def rshift : UInt8 := 0x36
@[simp] def lshiftRelease : UInt8 := 0xAA
@[simp] def rshiftRelease : UInt8 := 0xB6
@[simp] def caplock : UInt8 := 0x3A
@[simp] def lAlt : UInt8 := 0x38
@[simp] def lAltRelease : UInt8 := 0xB8
@[simp] def keyF1 : UInt8 := 0x3B
@[simp] def keyF2 : UInt8 := 0x3C
@[simp] def keyF3 : UInt8 := 0x3D

/-- `keys`: the characters of the scan codes 0 to 58. -/
def keys : List UInt8 :=
  [0, 0] ++ literal "1234567890-=" ++ [0, 0] ++ literal "qwertyuiop[]" ++ [10, 0] ++
    literal "asdfghjkl;'`" ++ [0] ++ literal "\\zxcvbnm,./" ++ [0, 0, 0, 32, 0]

def capKeys : List UInt8 :=
  [0, 0] ++ literal "!@#$%^&*()_+" ++ [0, 0] ++ literal "QWERTYUIOP\x7b\x7d" ++ [10, 0] ++
    literal "ASDFGHJKL:\"~" ++ [0] ++ literal "|ZXCVBNM<>?" ++ [0, 0, 0, 32, 0]

/-- `keys[sc]`. Codes behind the end of the table read the memory that follows. -/
def keyAt (m : Machine) (sc : UInt8) : UInt8 :=
  if sc.toNat < 59 then keys.getD sc.toNat 0 else m.strayKeys sc.toNat

/-- `cap_keys[sc]`. -/
def capKeyAt (m : Machine) (sc : UInt8) : UInt8 :=
  if sc.toNat < 59 then capKeys.getD sc.toNat 0 else m.strayCapKeys sc.toNat

namespace Kernel

/-- An update of the terminal state. -/
def onTty (s : Kernel) (f : Tty → Tty) : Kernel := { s with tty := f s.tty }

/-- `keyboard_handler` for the scan code `sc` read from the data port. -/
def keyboardHandler (m : Machine) (fr : StackFrame) (s : Kernel) (sc : UInt8) :
    Except Stop Kernel :=
  if sc ≤ keyRelease then
    if keyAt m sc = newlineChar then
      return s.onTty fun y => { y.addToBuffer newlineChar with enterFlag := true }
    else if sc = backspaceCode then return s.onTty fun y => y.backspace.printBuffer
    else if sc = lCtrl then return s.onTty fun y => { y with ctrlFlag := true }
    else if sc = lAlt then return s.onTty fun y => { y with altFlag := true }
    else if s.tty.altFlag ∧ sc = keyF1 then s.switchTerminal m fr terminal1
    else if s.tty.altFlag ∧ sc = keyF2 then s.switchTerminal m fr terminal2
    else if s.tty.altFlag ∧ sc = keyF3 then s.switchTerminal m fr terminal3
    else if s.tty.ctrlFlag ∧ sc = lButton then return s.onTty fun y => y.clearScreen.printBuffer
    else if s.tty.ctrlFlag ∧ sc = cButton then return (← s.halt m fr 0).2
    else if sc = lshift ∨ sc = rshift then
      return s.onTty fun y => { y with capFlag := !y.capFlag }
    else if sc = caplock then return s.onTty fun y => { y with capFlag := !y.capFlag }
    else if s.tty.capFlag then
      return s.onTty fun y => (y.addToBuffer (capKeyAt m sc)).printBuffer
    else return s.onTty fun y => (y.addToBuffer (keyAt m sc)).printBuffer
  else if sc = lCtrlRelease then return s.onTty fun y => { y with ctrlFlag := false }
  else if sc = lshiftRelease ∨ sc = rshiftRelease then
    return s.onTty fun y => { y with capFlag := !y.capFlag }
  else if sc = lAltRelease then return s.onTty fun y => { y with altFlag := !y.altFlag }
  else return s

end Kernel
end KudOS
