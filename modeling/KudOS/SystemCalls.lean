import KudOS.Filesystem
import KudOS.TerminalDriver

/-!
# System calls

`pcb.c`, `syscall.c`, the clock operations of `rtc.c`, and `switch_terminal`, which calls
`execute`. `execute` either returns to its caller or leaves for user mode; a later
`halt` of the process it started resumes it behind `exec_halt`, where it returns 0. The
copy of the PCB that `pcb_init` leaves below the kernel stack is never read back, and
kernel stacks are not part of the state, so it is left out.
-/

/-! ## Process control blocks -/

namespace KudOS.Kernel

/-- `find_free_pcb`: the first free slot, or -1 as a `uint32_t`. -/
def findFreePcb (pcbs : ℕ → Pcb) : ℕ :=
  ((List.range' 1 (maxProcesses - 1)).find? fun i => (pcbs i).programId = 0).getD (2 ^ 32 - 1)

def getKernelStackPtr (programId : ℕ) : ℕ :=
  (kernelStack + (2 ^ 32 - dec32 programId * kernelStackOffset % 2 ^ 32)) % 2 ^ 32

/-- The descriptors 0 and 1 of a new process. -/
def stdinFd : FsDescriptor := ⟨some .stdinOps, 0, 0, fileInUse⟩
def stdoutFd : FsDescriptor := ⟨some .stdoutOps, 0, 0, fileInUse⟩

/-- The PCB that `pcb_init` makes of `p` for process `id` on terminal `t`. -/
def initPcb (p : Pcb) (id : ℕ) (t : TerminalId) : Pcb :=
  { p with
    fileArray := Function.update (Function.update p.fileArray 0 stdinFd) 1 stdoutFd
    programId := id
    lastEip := 0
    processTerminal := t.val
    address := getKernelStackPtr id
    esp := getKernelStackPtr id
    ebp := getKernelStackPtr id
    esp0 := getKernelStackPtr id % 2 ^ 8
    parentId := 0 }

/-- The PCB that `pcb_destroy` makes of `p`. The descriptors stay as they are. -/
def wipePcb (p : Pcb) : Pcb :=
  { p with
    processTerminal := -1
    programId := 0
    parentId := 0
    address := 0
    esp := 0
    ebp := 0
    esp0 := 0 }

/-- `pcb_init(&pcbs[i])`. The program number is looked up again, before the slot is
marked as taken. -/
def pcbInit (s : Kernel) (i : ℕ) : Kernel :=
  let t := s.tty.currTerminal
  let id := findFreePcb s.pcbs
  let s := s.setPcb i (initPcb (s.pcbs i) id t)
  { s with
    terminalInfo :=
      Function.update s.terminalInfo t ⟨id, inc32 (s.terminalInfo t).numProcess⟩
    currentPcb := some i }

def pcbDestroy (s : Kernel) (i : ℕ) : Kernel :=
  let t := s.tty.currTerminal
  let p := s.pcbs i
  let s := { s with
    processNumber := dec32 s.processNumber
    terminalInfo :=
      Function.update s.terminalInfo t ⟨p.parentId, dec32 (s.terminalInfo t).numProcess⟩
    currentPcb := some p.parentId }
  s.setPcb i (wipePcb p)

end KudOS.Kernel

namespace KudOS

/-- How a call of `execute` leaves the kernel. -/
inductive ExecOutcome where
  | started (entry : ℕ)
  | returned (value : ℤ)
  deriving DecidableEq, Repr

/-- How a call of `halt` leaves the kernel: into a new shell, or behind the
`exec_halt` label on the saved stack, so that the `execute` of that stack returns. -/
inductive HaltOutcome where
  | restarted (entry : ℕ)
  | resumed (esp ebp : ℕ) (value : ℤ)
  deriving DecidableEq, Repr

/-- The command `"shell"` of `halt`, `switch_terminal` and `entry`. -/
def shellCommand : List UInt8 := literal "shell"

/-! ## Commands and executables -/

/-- `check_command`: the name and the arguments, or `none` for -1. -/
def checkCommand : Option (List UInt8) → Option (List UInt8 × List UInt8)
  | none => none
  | some command =>
    if cString command 0 = blankSpace then none
    else
      let name := command.takeWhile fun c => c ≠ blankSpace ∧ c ≠ 0
      let rest := (command.drop name.length).dropWhile fun c => c = blankSpace
      some (name, rest.takeWhile fun c => c ≠ 0)

/-- The array `a` after the characters of `l` and a terminator were stored to it. -/
def storeString (a : ℕ → UInt8) (l : List UInt8) : ℕ → UInt8 :=
  memcpy a 0 (cString l) (l.length + 1)

/-- The little-endian word at offset `k`. -/
def wordAt (b : ℕ → UInt8) (k : ℕ) : ℕ :=
  (b k).toNat + (b (k + 1)).toNat * 2 ^ 8 + (b (k + 2)).toNat * 2 ^ 16 +
    (b (k + 3)).toNat * 2 ^ 24

/-- `check_executable` with the previous contents `header` of its buffer: the entry
address, or `none` for -1. -/
def checkExecutable (img : FsImage) (header : ℕ → UInt8) (name : ℕ → UInt8) : Option ℕ :=
  match img.readDentryByName name with
  | none => none
  | some d =>
    if d.inode = 0 then none
    else
      let h := (img.readData d.inode 0 header elfHeaderSize).2
      if ¬ (h 0 = 0x7F ∧ h 1 = 0x45 ∧ h 2 = 0x4C ∧ h 3 = 0x46) then none
      else if wordAt h 24 < pageVirtAddr ∨ wordAt h 24 > pageVirtAddr + pageSize4MB then none
      else some (wordAt h 24)

namespace Kernel

/-! ## execute -/

/-- The messages of `execute` for a NULL command and at the process limit. -/
def emptyMessage : List UInt8 := literal "Command cannot be empty!"
def limitMessage : List UInt8 := literal "you can't run any more processes!\n"

/-- The first half of `execute` after the limit test: count the process, take a
slot, initialise it and link it to its parent. The result is the slot and the state,
in which the new process is current. -/
def spawn (s : Kernel) : Except Stop (ℕ × Kernel) :=
  let s := { s with processNumber := inc32 s.processNumber }
  let new := findFreePcb s.pcbs
  let cur := s.currentPcb
  if new < maxProcesses then
    let s := s.pcbInit new
    let s := match cur with
      | none => s
      | some c => s.setPcb new { s.pcbs new with parentId := (s.pcbs c).programId }
    let s := if cur = some 0 then s.setPcb new { s.pcbs new with parentId := 0 } else s
    .ok (new, s)
  else .error .fault

/-- The last part of `execute`: directory, program image, saved registers, TSS. -/
def launch (m : Machine) (fr : StackFrame) (s : Kernel) (new entry : ℕ) :
    Except Stop (ExecOutcome × Kernel) := do
  let p ← s.paging.newTaskPd m (dec32 s.curPcb.programId)
  let s := { s with paging := p }
  let s ← s.copyFileImage m.image fr.imageBuf s.curPcb.cmdName
  let s := s.setPcb new { s.pcbs new with esp := fr.esp, ebp := fr.ebp }
  return (.started entry, { s with tssEsp0 := (s.pcbs new).address })

/-- The middle of `execute`, for the new process in slot `new`: split the command,
check the file, and either take the process back or launch it. A name or argument
string that overruns its array in the PCB is undefined. -/
def loadCommand (m : Machine) (fr : StackFrame) (s : Kernel) (new : ℕ)
    (command : Option (List UInt8)) : Except Stop (ExecOutcome × Kernel) :=
  match checkCommand command with
  | none =>
    let s := if command.isNone then
        { s with tty := s.tty.printText emptyMessage }
      else s
    .ok (.returned (-1), s.pcbDestroy new)
  | some (name, args) =>
    if name.length < maxCmdLength ∧ args.length < maxCmdLength then
      let s := s.setPcb new { s.pcbs new with
        cmdName := storeString (s.pcbs new).cmdName name
        cmdArgs := storeString (s.pcbs new).cmdArgs args }
      match checkExecutable m.image fr.elfHeader (s.pcbs new).cmdName with
      | none => .ok (.returned (-1), s.pcbDestroy new)
      | some entry => s.launch m fr new entry
    else .error .fault

def execute (m : Machine) (fr : StackFrame) (s : Kernel) (command : Option (List UInt8)) :
    Except Stop (ExecOutcome × Kernel) :=
  if inc32 s.processNumber ≥ maxProcesses then
    .ok (.returned 0, { s with tty := s.tty.printText limitMessage })
  else do
    let (new, s) ← s.spawn
    s.loadCommand m fr new command

/-! ## File descriptors -/

/-- `current_pcb->file_array[fd].flags`, read before `fd` is checked. -/
def flagsAt (m : Machine) (s : Kernel) (fd : ℤ) : ℕ :=
  if 0 ≤ fd ∧ fd ≤ fdMaxIdx then (s.curPcb.fileArray fd.toNat).flags else m.strayFlags fd

/-- `rtc_read`, when the tick it waits for has come. -/
def rtcRead (s : Kernel) : Kernel :=
  { s with rtc := { s.rtc with rtcSyncFlag := false, rtcReadFlag := false } }

/-- The rate bits `rtc_write` selects, rounding the frequency up to a power of two. -/
def rtcRate (f : ℕ) : ℕ :=
  if f > 512 then 0x06 else if f > 256 then 0x07 else if f > 128 then 0x08
  else if f > 64 then 0x09 else if f > 32 then 0x0A else if f > 16 then 0x0B
  else if f > 8 then 0x0C else if f > 4 then 0x0D else if f > 2 then 0x0E else 0x0F

def rtcWrite (s : Kernel) (buf : ℕ → UInt8) : ℤ × Kernel :=
  if wordAt buf 0 > 1024 then (-1, s)
  else (0, { s with rtc :=
    { s.rtc with registerA := (s.rtc.registerA &&& 0xF0) ||| rtcRate (wordAt buf 0) } })

/-- The call through `readptr`: return value, bytes stored to the buffer, state. -/
def ReadFn.call (m : Machine) (s : Kernel) (fd : ℕ) (nbytes : ℤ) :
    ReadFn → Except Stop (ℤ × List UInt8 × Kernel)
  | .terminalRead => do
    let (out, tty) ← s.tty.terminalRead nbytes
    return (out.length, out, { s with tty := tty })
  | .readFile =>
    let (out, s) := s.readFile m.image fd nbytes
    return (out.length, out, s)
  | .rtcRead => return (0, [], s.rtcRead)

def WriteFn.call (s : Kernel) (buf : ℕ → UInt8) (nbytes : ℤ) : WriteFn → ℤ × Kernel
  | .terminalWrite =>
    let (n, tty) := s.tty.terminalWrite (some buf) nbytes
    (n, { s with tty := tty })
  | .writeFile => (-1, s)
  | .rtcWrite => s.rtcWrite buf

def CloseFn.call (s : Kernel) (fd : ℕ) : CloseFn → Kernel
  | .terminalClose => s
  | .closeFile => s.closeFile fd
  | .rtcClose => s

/-- The pointers `read`, `write` and `close` call through; `none` is NULL. -/
def readTarget (s : Kernel) (fd : ℕ) : Option ReadFn :=
  (s.curPcb.fileArray fd).fileOps.bind fun o => o.table.readptr

def writeTarget (s : Kernel) (fd : ℕ) : Option WriteFn :=
  ((s.pcbs s.curPcb.programId).fileArray fd).fileOps.bind fun o => o.table.writeptr

def closeTarget (s : Kernel) (fd : ℕ) : Option CloseFn :=
  (s.curPcb.fileArray fd).fileOps.bind fun o => o.table.closeptr

def sysRead (m : Machine) (s : Kernel) (fd : ℤ) (bufIsNull : Bool) (nbytes : ℤ) :
    Except Stop (ℤ × List UInt8 × Kernel) :=
  if s.flagsAt m fd = 0 then return (-1, [], s)
  else if bufIsNull then return (-1, [], s)
  else if fd > fdMaxIdx then return (-1, [], s)
  else if fd < 0 then return (-1, [], s)
  else if fd = 1 then return (-1, [], s)
  else match s.readTarget fd.toNat with
    | none => throw .fault
    | some f => ReadFn.call m s fd.toNat nbytes f

def sysWrite (m : Machine) (s : Kernel) (fd : ℤ) (buf : Option (ℕ → UInt8)) (nbytes : ℤ) :
    Except Stop (ℤ × Kernel) :=
  if s.flagsAt m fd = 0 then return (-1, s)
  else match buf with
    | none => return (-1, s)
    | some buf =>
      if fd > fdMaxIdx then return (-1, s)
      else if fd ≤ 0 then return (-1, s)
      else match s.writeTarget fd.toNat with
        | none => throw .fault
        | some f => return WriteFn.call s buf nbytes f

def sysOpen (m : Machine) (s : Kernel) (filename : ℕ → UInt8) : ℤ × Kernel :=
  s.openFile m.image filename

def sysClose (m : Machine) (s : Kernel) (fd : ℤ) : Except Stop (ℤ × Kernel) :=
  if s.flagsAt m fd = 0 then return (-1, s)
  else if fd < fdMinIdx then return (-1, s)
  else if fd > fdMaxIdx then return (-1, s)
  else
    let i := s.cur
    let n := fd.toNat
    if ((s.pcbs i).fileArray n).flags = fileNotInUse then return (-1, s)
    else
      let s := s.setFd i n { (s.pcbs i).fileArray n with flags := fileNotInUse }
      match s.closeTarget n with
      | none => throw .fault
      | some f =>
        let s := CloseFn.call s n f
        return (0, s.removeFd i n)

/-! ## halt, vidmap, switch_terminal -/

/-- The loops of `halt` that close every descriptor of the current process. -/
def closeAll (m : Machine) (s : Kernel) : Except Stop Kernel :=
  (List.range (fdMaxIdx + 1)).foldlM (fun s (i : ℕ) => do return (← s.sysClose m i).2) s

/-- `halt` from the reload of the stack on. -/
def haltTail (m : Machine) (s : Kernel) : Except Stop (HaltOutcome × Kernel) := do
  let esp := s.curPcb.esp
  let ebp := s.curPcb.ebp
  let s ← s.closeAll m
  let s := s.pcbDestroy s.cur
  let s := { s with tssEsp0 := s.curPcb.address }
  let p ← s.paging.loadPageDirectory (dec32 s.curPcb.programId)
  return (.resumed esp ebp 0, { s with paging := p })

/-- `halt`. The status is copied to a local variable and not used. -/
def halt (m : Machine) (fr : StackFrame) (s : Kernel) (_status : UInt8) :
    Except Stop (HaltOutcome × Kernel) :=
  -- the difference is unsigned, so `<= 0` means a single process
  if dec32 (s.terminalInfo s.tty.currTerminal).numProcess ≤ 0 then do
    let s ← s.closeAll m
    let s := s.pcbDestroy s.cur
    let (o, s) ← s.execute m fr (some shellCommand)
    match o with
    | .started entry => return (.restarted entry, s)
    | .returned _ => s.haltTail m
  else s.haltTail m

/-- `vidmap`, for the address `screenStart` of the caller's pointer. -/
def vidmap (m : Machine) (s : Kernel) (screenStart : ℕ) : Except Stop (ℤ × Kernel) :=
  if screenStart = 0 then return (-1, s)
  else if screenStart < pageVirtAddr ∨ screenStart > pageVirtAddr + pageSize4MB then
    return (-1, s)
  else do
    let p ← s.paging.createVidmap m (dec32 s.curPcb.programId)
    let s := { s with paging := p }
    let s ← s.storeUser screenStart (fun i => (vidmapAddr >>> (8 * i)).toUInt8) 4
    return (0, s)

def switchTerminal (m : Machine) (fr : StackFrame) (s : Kernel) (t : TerminalId) :
    Except Stop Kernel :=
  if t = s.tty.currTerminal then return s
  else do
    let s := { s with tty := s.tty.switchScreen t }
    let s := { s with currentPcb := some (s.terminalInfo t).topProcessId }
    if s.curPcb.programId = 0 then
      return (← s.execute m fr (some shellCommand)).2
    else
      let p ← s.paging.loadPageDirectory (dec32 s.curPcb.programId)
      return { s with paging := p, tssEsp0 := s.curPcb.address }

end Kernel
end KudOS
