import Mathlib.Algebra.Order.Ring.Int

/-!
# The kernel's global state

The records of `pcb.h`, `filesystem.h`, `terminal.h`, `keyboard.h` and `paging.h`
and the globals declared there. A C array is a function from its index; unsigned
words are natural numbers, reduced explicitly where the code can wrap. Pointers
into `pcbs` are slot numbers, pointers into the file-system image are addresses.
-/

namespace KudOS

/-- Why a kernel function has no successor state: it waits for an interrupt, or it
left defined behaviour (call through NULL, array overrun, page fault). -/
inductive Stop where
  | blocked
  | fault
  deriving DecidableEq, Repr

/-! ## Constants of the headers -/

@[simp] def maxProcesses : ℕ := 7
@[simp] def maxTasks : ℕ := 6
@[simp] def maxCmdLength : ℕ := 128
@[simp] def fdMinIdx : ℕ := 2
@[simp] def fdMaxIdx : ℕ := 7
@[simp] def fileNotInUse : ℕ := 0
@[simp] def fileInUse : ℕ := 1
@[simp] def fileTypeRtc : ℕ := 0
@[simp] def fileTypeDir : ℕ := 1
@[simp] def fileTypeReg : ℕ := 2
@[simp] def blockSize : ℕ := 4096
@[simp] def maxFnameLength : ℕ := 32
@[simp] def elfHeaderSize : ℕ := 52
@[simp] def imageStart : ℕ := 0x8048000
@[simp] def pageVirtAddr : ℕ := 0x8000000
@[simp] def pageSize4MB : ℕ := 0x400000
@[simp] def pageSize4KB : ℕ := 0x1000
@[simp] def kernelStack : ℕ := 0x00800000
@[simp] def kernelStackOffset : ℕ := 0x2000

/-- The number of values of a `uint32_t`. -/
@[simp] def wordSize : ℕ := 2 ^ 32

/-! ## File system -/

/-- `dentry_t` without its reserved bytes. -/
structure Dentry where
  fname : ℕ → UInt8
  ftype : ℕ
  inode : ℕ

/-- `inodes_t`: the length in bytes and the numbers of the data blocks. -/
structure Inode where
  length : ℕ
  dataBlocks : ℕ → ℕ

/-- The image the boot loader left at `fs_start`. `data` is the memory from
`data_array` on; it also holds whatever follows the last data block. -/
structure FsImage where
  fsStart : ℕ
  numDirEntries : ℕ
  numInodes : ℕ
  numDataBlocks : ℕ
  dirEntries : ℕ → Dentry
  inodes : ℕ → Inode
  data : ℕ → UInt8

/-- The operation tables a descriptor can point to. -/
inductive FileOps where
  | stdinOps | stdoutOps | fileOps | rtcOps
  deriving DecidableEq, Repr

inductive ReadFn where
  | terminalRead | readFile | rtcRead
  deriving DecidableEq, Repr

inductive WriteFn where
  | terminalWrite | writeFile | rtcWrite
  deriving DecidableEq, Repr

inductive CloseFn where
  | terminalClose | closeFile | rtcClose
  deriving DecidableEq, Repr

/-- `file_op_ptr_t`; `none` is a NULL function pointer. No code calls through
`openptr`. -/
structure FileOpPtr where
  closeptr : Option CloseFn
  readptr : Option ReadFn
  writeptr : Option WriteFn
  deriving DecidableEq, Repr

/-- The tables as `terminal_init`, `fs_init` and `rtc_init` fill them. -/
def FileOps.table : FileOps → FileOpPtr
  | .stdinOps => ⟨some .terminalClose, some .terminalRead, none⟩
  | .stdoutOps => ⟨some .terminalClose, none, some .terminalWrite⟩
  | .fileOps => ⟨some .closeFile, some .readFile, some .writeFile⟩
  | .rtcOps => ⟨some .rtcClose, some .rtcRead, some .rtcWrite⟩

structure FsDescriptor where
  fileOps : Option FileOps
  inodePtr : ℕ
  filePosition : ℕ
  flags : ℕ
  deriving DecidableEq, Repr

def FsDescriptor.zero : FsDescriptor := ⟨none, 0, 0, 0⟩

/-! ## Processes -/

structure Pcb where
  fileArray : ℕ → FsDescriptor
  programId : ℕ
  parentId : ℕ
  address : ℕ
  esp : ℕ
  ebp : ℕ
  lastEip : ℕ
  esp0 : ℕ
  cmdName : ℕ → UInt8
  cmdArgs : ℕ → UInt8
  processTerminal : ℤ

/-- A PCB of the zero-initialised array. -/
def Pcb.zero : Pcb :=
  ⟨fun _ => .zero, 0, 0, 0, 0, 0, 0, 0, fun _ => 0, fun _ => 0, 0⟩

/-- The terminals `TERMINAL_1` to `TERMINAL_3`. -/
abbrev TerminalId := Fin 3

abbrev terminal1 : TerminalId := 0
abbrev terminal2 : TerminalId := 1
abbrev terminal3 : TerminalId := 2

structure TerminalInfo where
  topProcessId : ℕ
  numProcess : ℕ
  deriving DecidableEq, Repr

/-! ## Terminals and keyboard -/

/-- One page of text-mode memory: `BLOCK_SIZE` bytes as 16-bit cells. -/
abbrev Screen := Fin 2048 → UInt16

/-- The globals of `terminal.h` and `keyboard.h`. `video` is the page at `VIDEO_MEM`,
`terminalMemory t` the save area of terminal `t`, and the two cursor bytes are the
VGA registers 14 and 15. `terminalBuffer` is the memory from `terminal_buffer` on: the
row of terminal `t` starts at index 128 * t, and from index 384 on follow the bytes that
the linker placed behind the array, which the model keeps apart from its other fields. -/
structure Tty where
  video : Screen
  terminalMemory : TerminalId → Screen
  csrX : TerminalId → ℤ
  csrY : TerminalId → ℤ
  lineY : TerminalId → ℤ
  lineBeginning : TerminalId → ℤ
  terminalBuffer : ℕ → UInt8
  bufferLen : TerminalId → ℕ
  currTerminal : TerminalId
  attrib : ℕ
  cursorHigh : UInt8
  cursorLow : UInt8
  enterFlag : Bool
  ctrlFlag : Bool
  capFlag : Bool
  altFlag : Bool

/-! ## Paging, clock, and the whole state -/

/-- The tables of `paging.h`. `cr3` is the number of the loaded directory. -/
structure Paging where
  pageTable : ℕ → ℕ
  pageTableVidmap : ℕ → ℕ
  pageDirectories : ℕ → ℕ → ℕ
  cr3 : ℕ

/-- The flags of `rtc.h` and the clock's register A. -/
structure Rtc where
  rtcSyncFlag : Bool
  rtcReadFlag : Bool
  registerA : ℕ

/-- The kernel's mutable state. `currentPcb` is the slot pointed to, `none` for NULL;
`phys` is the physical memory behind the user pages. -/
structure Kernel where
  tty : Tty
  pcbs : ℕ → Pcb
  processNumber : ℕ
  currentPcb : Option ℕ
  terminalInfo : TerminalId → TerminalInfo
  paging : Paging
  tssEsp0 : ℕ
  dentry : Dentry
  phys : ℕ → UInt8
  rtc : Rtc

/-- What the loader and the linker fixed: the image, the addresses of the two page
tables, and the contents of the memory around some arrays the code over-reads. -/
structure Machine where
  image : FsImage
  pageTableAddr : ℕ
  pageTableVidmapAddr : ℕ
  strayTables : ℕ → ℕ → ℕ
  strayFlags : ℤ → ℕ
  strayKeys : ℕ → UInt8
  strayCapKeys : ℕ → UInt8

/-- What a call of `execute` finds on its stack: the uninitialised header of
`check_executable`, the uninitialised buffer of `copy_file_image`, and the
registers it saves. -/
structure StackFrame where
  elfHeader : ℕ → UInt8
  imageBuf : ℕ → UInt8
  esp : ℕ
  ebp : ℕ

namespace Kernel

/-- The slot `current_pcb` points to. The pointer is NULL only before the first
`execute`, which tests it before any use. -/
def cur (s : Kernel) : ℕ := s.currentPcb.getD 0

def curPcb (s : Kernel) : Pcb := s.pcbs s.cur

def setPcb (s : Kernel) (i : ℕ) (p : Pcb) : Kernel :=
  { s with pcbs := Function.update s.pcbs i p }

def setFd (s : Kernel) (i fd : ℕ) (d : FsDescriptor) : Kernel :=
  s.setPcb i { s.pcbs i with fileArray := Function.update (s.pcbs i).fileArray fd d }

def Live (s : Kernel) (i : ℕ) : Prop := (s.pcbs i).programId ≠ 0

instance (s : Kernel) (i : ℕ) : Decidable (s.Live i) := inferInstanceAs (Decidable (_ ≠ _))

end Kernel

theorem ok_bind {α β : Type} (a : α) (f : α → Except Stop β) : (Except.ok a >>= f) = f a := rfl

/-- A computation that ends did so in each of its parts. -/
theorem bind_eq_ok {α β : Type} {x : Except Stop α} {f : α → Except Stop β} {b : β} :
    (x >>= f) = .ok b ↔ ∃ a, x = .ok a ∧ f a = .ok b := by
  cases x with
  | error e =>
    constructor
    · intro h
      cases h
    · rintro ⟨a, h, _⟩
      cases h
  | ok a =>
    constructor
    · intro h
      exact ⟨a, rfl, h⟩
    · rintro ⟨_, ⟨⟩, h⟩
      exact h

/-- A computation that stops did so in one of its parts. -/
theorem bind_eq_error {α β : Type} {x : Except Stop α} {f : α → Except Stop β} {e : Stop} :
    (x >>= f) = .error e ↔ x = .error e ∨ ∃ a, x = .ok a ∧ f a = .error e := by
  cases x with
  | error e' =>
    constructor
    · intro h
      cases h
      exact Or.inl rfl
    · rintro (h | ⟨a, h, _⟩)
      · cases h
        rfl
      · cases h
  | ok a =>
    constructor
    · intro h
      exact Or.inr ⟨a, rfl, h⟩
    · rintro (h | ⟨_, ⟨⟩, h⟩)
      · cases h
      · exact h

/-- The memory behind a pointer to a NUL-terminated string. -/
def cString (l : List UInt8) (i : ℕ) : UInt8 := l.getD i 0

/-- The bytes of a string literal of the source. -/
def literal (s : String) : List UInt8 := s.toList.map (fun c => c.toNat.toUInt8)

/-- `(n + 1)` on a `uint32_t`. -/
def inc32 (n : ℕ) : ℕ := (n + 1) % 2 ^ 32

/-- `(n - 1)` on a `uint32_t`. -/
def dec32 (n : ℕ) : ℕ := (n + (2 ^ 32 - 1)) % 2 ^ 32

theorem inc32_of_lt {n : ℕ} (h : n + 1 < 2 ^ 32) : inc32 n = n + 1 := Nat.mod_eq_of_lt h

theorem dec32_of_pos {n : ℕ} (h0 : 0 < n) (h : n < 2 ^ 32) : dec32 n = n - 1 := by
  unfold dec32
  omega

@[simp] theorem dec32_inc32 {n : ℕ} (h : n < 2 ^ 32) : dec32 (inc32 n) = n := by
  unfold dec32 inc32
  omega

end KudOS
