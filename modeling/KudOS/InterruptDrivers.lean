import KudOS.InterruptController
import KudOS.InterruptLogic
import KudOS.SystemCalls

/-!
# The interrupt drivers

`i8259.c`, the port accesses of `rtc.c`, `scheduler.c`, `terminal.c` and `keyboard.c`, and
the order in which `entry`, the handlers and the system calls make them. A routine takes
what follows it as its last argument. Where the accesses depend on the kernel's state, the
routine is a relation: all that it may do.
-/

namespace KudOS.Hardware

open Interrupts Pic

/-! ## The devices -/

/-- The clock: the selected register, registers A and B, and the flags of register C.
Bit 7 of register A is not stored: it tells of an update in progress. -/
structure Clock where
  index : Byte
  registerA : BitVec 7
  updating : Bool
  registerB : Byte
  flags : BitVec 3

namespace Clock

/-- The interrupt line: a flag is set whose interrupt is enabled. -/
def line (c : Clock) : Bool := c.flags &&& c.registerB.extractLsb' 4 3 ≠ 0

def writeData (c : Clock) (v : Byte) : Clock :=
  if c.index = 0x0A then { c with registerA := v.setWidth 7 }
  else if c.index = 0x0B then { c with registerB := v }
  else c

/-- A read of the selected register; a read of register C resets the flags. -/
def readData (c : Clock) : Byte × Clock :=
  if c.index = 0x0A then (BitVec.ofBool c.updating ++ c.registerA, c)
  else if c.index = 0x0B then (c.registerB, c)
  else if c.index = 0x0C then
    (BitVec.ofBool c.line ++ c.flags ++ (0 : BitVec 4), { c with flags := 0 })
  else (0, c)

end Clock

/-- The devices that the kernel's interrupts come from. -/
structure Devices where
  pics : Pair
  requests : Requests
  clock : Clock
  scanCode : Byte

abbrev clockPin : Pin := .slave clockInput

namespace Devices

/-- The clock changes; a rising edge of its line is latched, and a low line takes the
request back. -/
def setClock (d : Devices) (c : Clock) : Devices :=
  { d with
    clock := c
    requests :=
      if c.line = false then d.requests.lower clockPin
      else if d.clock.line = false then d.requests.raise clockPin
      else d.requests }

def writeMaster (d : Devices) (v : Byte) : Devices :=
  { d with
    pics := { d.pics with master := d.pics.master.writeCommand v }
    requests :=
      if v.getLsbD 4 then { d.requests with master := fun _ => false } else d.requests }

def writeSlave (d : Devices) (v : Byte) : Devices :=
  { d with
    pics := { d.pics with slave := d.pics.slave.writeCommand v }
    requests :=
      if v.getLsbD 4 then { d.requests with slave := fun _ => false } else d.requests }

/-- A write to a port. The video and timer ports change nothing that is modelled. -/
def write (port : ℕ) (v : Byte) (d : Devices) : Devices :=
  if port = 0x20 then d.writeMaster v
  else if port = 0x21 then
    { d with pics := { d.pics with master := d.pics.master.writeData v } }
  else if port = 0xA0 then d.writeSlave v
  else if port = 0xA1 then
    { d with pics := { d.pics with slave := d.pics.slave.writeData v } }
  else if port = 0x70 then { d with clock := { d.clock with index := v &&& 0x7F } }
  else if port = 0x71 then d.setClock (d.clock.writeData v)
  else d

def read (port : ℕ) (d : Devices) : Byte × Devices :=
  if port = 0x21 then (d.pics.master.mask, d)
  else if port = 0xA1 then (d.pics.slave.mask, d)
  else if port = 0x71 then (d.clock.readData.1, d.setClock d.clock.readData.2)
  else if port = 0x60 then (d.scanCode, d)
  else (0, d)

def acknowledge (d : Devices) (x : Pin) : Devices :=
  { d with pics := d.pics.accept x, requests := d.requests.lower x }

def accept (d : Devices) : Option (Byte × Devices) :=
  (d.pics.select d.requests).map fun x => (d.pics.vector x, d.acknowledge x)

/-- What the devices do by themselves: the clock sets flags or updates, a key is pressed,
another line requests. -/
inductive Event : Devices → Devices → Prop where
  | tick (d : Devices) (f : BitVec 3) :
    Event d (d.setClock { d.clock with flags := d.clock.flags ||| f })
  | update (d : Devices) (b : Bool) : Event d { d with clock := { d.clock with updating := b } }
  | key (d : Devices) (v : Byte) : Event d { d with scanCode := v }
  | raise (d : Devices) (x : Pin) (h : x ≠ clockPin) :
    Event d { d with requests := d.requests.raise x }

end Devices

def board : Board Devices Byte := ⟨Devices.write, Devices.read, Devices.accept, Devices.Event⟩

/-! ## i8259.c -/

/-- `1 << n`. The processor takes the count modulo 32; the language leaves larger counts
open. -/
def bit (n : ℕ) : BitVec 32 := 1#32 <<< (n % 32)

def i8259Init (k : Code) : Code :=
  .outb 0x11 0x20 <| .outb 0x11 0xA0 <|
  .outb 0x20 0x21 <| .outb 0x28 0xA1 <|
  .outb 0x04 0x21 <| .outb 0x02 0xA1 <|
  .outb 0x01 0x21 <| .outb 0x01 0xA1 <|
  .outb 0xFB 0x21 <| .outb 0xFF 0xA1 k

def enableIrq (irqNum : ℕ) (k : Code) : Code :=
  if irqNum < 8 then
    .inb 0x21 fun m => .outb ((m.setWidth 32 &&& ~~~bit irqNum).setWidth 8) 0x21 k
  else .inb 0xA1 fun m => .outb ((m.setWidth 32 &&& ~~~bit (irqNum - 8)).setWidth 8) 0xA1 k

def disableIrq (irqNum : ℕ) (k : Code) : Code :=
  if irqNum < 8 then
    .inb 0x21 fun m => .outb ((m.setWidth 32 ||| bit irqNum).setWidth 8) 0x21 k
  else .inb 0xA1 fun m => .outb ((m.setWidth 32 ||| bit (irqNum - 8)).setWidth 8) 0xA1 k

def sendEoi (irqNum : ℕ) (k : Code) : Code :=
  if irqNum ≥ 8 then
    .outb (0x60 ||| BitVec.ofNat 8 (irqNum - 8)) 0xA0 (.outb (0x60 ||| 2) 0x20 k)
  else .outb (0x60 ||| BitVec.ofNat 8 irqNum) 0x20 k

/-! ## rtc.c -/

def rtcInit (k : Code) : Code :=
  .outb 0x8B 0x70 <| .inb 0x71 fun saveB =>
  .outb 0x8B 0x70 <| .outb (saveB ||| 0x40) 0x71 k

def rtcWrite (newFreq : ℕ) (k : Code) : Code :=
  if newFreq > 1024 then k
  else
    disableIrq 8 <| .outb 0x8A 0x70 <| .inb 0x71 fun saveA =>
    .outb 0x8A 0x70 <| .outb ((saveA &&& 0xF0) ||| BitVec.ofNat 8 (Kernel.rtcRate newFreq)) 0x71 <|
    enableIrq 8 k

def rtcHandler : Code := sendEoi 8 <| .outb 0x0C 0x70 <| .inb 0x71 fun _ => .iret

/-! ## scheduler.c -/

/-- `pit_init`: the cast binds tighter than the shift, so the high byte is zero. -/
def pitInit (k : Code) : Code :=
  .outb 0x34 0x43 <| .outb (BitVec.ofNat 8 0x2E9B) 0x40 <|
  .outb (BitVec.ofNat 8 0x2E9B >>> 8) 0x40 k

def pitHandler : Code := sendEoi 0 .iret

/-! ## terminal.c -/

def moveCsr (cursorLocation : BitVec 32) (k : Code) : Code :=
  .outb 14 0x3D4 <| .outb ((cursorLocation >>> 8).setWidth 8) 0x3D5 <|
  .outb 15 0x3D4 <| .outb (cursorLocation.setWidth 8) 0x3D5 k

/-- `scroll`, which sets the interrupt flag whether or not it was set. -/
def scroll (k : Code) : Code := .cli (.sti k)

/-- Output to the screen before `k`: every routine that writes there is a sequence of
calls of `scroll` and `move_csr`. -/
inductive Display (k : Code) : Code → Prop where
  | done : Display k k
  | scroll {c} (h : Display k c) : Display k (scroll c)
  | moveCsr {c} (loc : BitVec 32) (h : Display k c) : Display k (moveCsr loc c)

/-! ## syscall.c -/

/-- `execute`: it starts the program, or it fails and returns to `k`. -/
inductive Execute (k : Code) : Code → Prop where
  | start {c} (h : Display (.cli .leave) c) : Execute k (sendEoi 1 (.cli c))
  | fail {c} (h : Display k c) : Execute k (sendEoi 1 (.cli c))

def syscallReturn : Code := .cli .leave

/-- `halt`: the parent's `execute` returns, or the terminal gets a new shell. -/
inductive Halt : Code → Prop where
  | parent : Halt syscallReturn
  | shell {c} (h : Execute syscallReturn c) : Halt c

/-- The code that user mode may enter: the system calls, and the exceptions, which print
and then spin. -/
inductive SystemCall : Code → Prop where
  | rtcWrite (newFreq : ℕ) : SystemCall (rtcWrite newFreq syscallReturn)
  | execute {c} (h : Execute syscallReturn c) : SystemCall c
  | halt {c} (h : Halt c) : SystemCall c
  | other {c} (h : Display syscallReturn c) : SystemCall c
  | exception {c} (h : Display .spin c) : SystemCall (.cli c)

/-! ## keyboard.c -/

def keyboardEnd : Code := sendEoi 1 (.sti .iret)

/-- What `keyboard_handler` does for one scan code: it edits the line, or it halts the
process, or it switches to another terminal and may have to start a shell there. -/
inductive KeyboardBody : Code → Prop where
  | edit {c} (h : Display keyboardEnd c) : KeyboardBody c
  | ctrlC {c} (h : Halt c) : KeyboardBody (sendEoi 1 c)
  | newTerminal {c c'} (h : Execute keyboardEnd c) (h' : Display c c') : KeyboardBody c'
  | exception {c} (h : Display .spin c) : KeyboardBody (.cli c)

def keyboardHandler (body : Byte → Code) : Code := .cli (.inb 0x60 body)

/-- The handlers that `idt_init` installs for the vectors of the controllers. -/
inductive Handler : Byte → Code → Prop where
  | pit : Handler 0x20 pitHandler
  | keyboard (body : Byte → Code) (h : ∀ b, KeyboardBody (body b)) :
    Handler 0x21 (keyboardHandler body)
  | rtc : Handler 0x28 rtcHandler

/-! ## kernel.c -/

/-- `entry` behind `i8259_init`. The second part prints, opens the terminal, sets the
interrupt flag, asks for the colour and starts the first shell. -/
inductive Entry : Code → Prop where
  | intro {c₁ c₂ c₃} (h₁ : Execute .spin c₁) (h₂ : Display c₁ c₂) (h₃ : Display (.sti c₂) c₃) :
    Entry (rtcInit <| rtcWrite 2 <| enableIrq 8 <| pitInit <| enableIrq 0 <| enableIrq 1 c₃)

end KudOS.Hardware
