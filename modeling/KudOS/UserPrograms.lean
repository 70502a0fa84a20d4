import KudOS.CallPrograms
import KudOS.DirectoryReading
import KudOS.NumberRendering
import KudOS.ProcessNesting
import KudOS.ProgramArguments
import KudOS.ReadPositions
import KudOS.ScreenLayout
import KudOS.SyscallGateway

/-!
# User programs

The programs under `syscalls` as programs that call the kernel. A location is the next
system call of `main` with the variables that are still needed, so the arms of `act` are
the lines of `main`. Interrupts may change the terminals between two calls. A buffer is
the memory from its first byte on. `cat` has its other variables behind the buffer, as in
the program under `fsdir`, because `getargs` stores there.
-/

namespace KudOS.User

open Sessions

/-! ## System calls -/

/-- The functions of `ece391syscall.h` that the programs call, and `int 0x80` with a number. -/
inductive Call where
  | execute (command : ℕ → UInt8)
  | read (fd : ℤ) (buf : ℕ → UInt8) (nbytes : ℤ)
  | write (fd : ℤ) (buf : ℕ → UInt8) (nbytes : ℤ)
  | open (filename : ℕ → UInt8)
  | close (fd : ℤ)
  | getargs (buf : ℕ → UInt8) (nbytes : ℤ)
  | vidmap (screenStart : ℕ)
  | number (num : BitVec 32)

/-- The return value, and the buffer after the call. -/
structure Reply where
  value : ℤ
  buf : ℕ → UInt8

/-- The kernel answers. A command that was started answers when it halts. Of the numbers only
those are answered for which `syscall_handler` calls no function. -/
inductive Served (m : Machine) (link : PcbLink) (s : Kernel) : Call → Reply → Kernel → Prop where
  | read {fd n r buf out s'} (hx : s.sysRead m fd false n = .ok (r, out, s')) :
    Served m link s (.read fd buf n) ⟨r, memcpy buf 0 (cString out) out.length⟩ s'
  | write {fd n r buf s'} (hx : s.sysWrite m fd (some buf) n = .ok (r, s')) :
    Served m link s (.write fd buf n) ⟨r, buf⟩ s'
  | open {filename r s'} (hx : s.sysOpen m filename = (r, s')) :
    Served m link s (.open filename) ⟨r, filename⟩ s'
  | close {fd r s'} (hx : s.sysClose m fd = .ok (r, s')) :
    Served m link s (.close fd) ⟨r, fun _ => 0⟩ s'
  | getargs {n r buf buf'} (hx : s.getargs link (some buf) n = .ok (r, some buf')) :
    Served m link s (.getargs buf n) ⟨r, buf'⟩ s
  | vidmap {v r s'} (hx : s.vidmap m v = .ok (r, s')) :
    Served m link s (.vidmap v) ⟨r, fun _ => 0⟩ s'
  | number {callee k u u'}
    (hrun : Gateway.handle callee k syscallHandler u = some (u', [])) :
    Served m link s (.number (u.reg .eax)) ⟨(u'.reg .eax).toInt, fun _ => 0⟩ s
  | refused {fr command text v s'} (htext : HoldsString 0 command text)
    (hx : s.execute m fr (some text) = .ok (.returned v, s')) :
    Served m link s (.execute command) ⟨v, command⟩ s'
  | program {fr fr' command text entry status s₁ s₂ esp ebp v s'}
    (htext : HoldsString 0 command text)
    (hx : s.execute m fr (some text) = .ok (.started entry, s₁))
    (body : Kernel.Activity m s₁ s₂)
    (hh : s₂.halt m fr' status = .ok (.resumed esp ebp v, s')) :
    Served m link s (.execute command) ⟨v, command⟩ s'

/-- An interrupt that neither switches the terminal nor halts the process. -/
def Interrupted (s s' : Kernel) : Prop :=
  ∃ y : Tty, y.currTerminal = s.tty.currTerminal ∧ s' = { s with tty := y }

/-- A program with its entry point, run by a kernel that is interrupted as `disturbs` says. -/
def session {Loc : Type} (m : Machine) (link : PcbLink) (act : Loc → Act Loc Call Reply)
    (disturbs : Kernel → Kernel → Prop) : Session Loc Call Reply Kernel :=
  ⟨act, Served m link, disturbs⟩

/-- The call as `terminal_write` sees it. -/
def Call.toTerminal : Call → Option WriteCall
  | .write fd buf nbytes => if fd = 1 then some ⟨buf, nbytes.toNat⟩ else none
  | _ => none

/-- What a trace wrote to the terminal, call by call. -/
def writes (t : List (Call × Reply)) : List WriteCall := t.filterMap fun e => e.1.toTerminal

def written (t : List (Call × Reply)) : List UInt8 := (writes t).flatMap WriteCall.bytes

/-! ## ece391support.c -/

/-- `ece391_fdputs` to the terminal, of a literal. -/
def puts (text : List UInt8) : Call :=
  .write 1 (cString text) (strlenFrom (cString text) (text.length + 1) 0)

/-- `ece391_strcmp`, if it ends within `n` turns from index `i` on. -/
def ece391Strcmp (s1 s2 : ℕ → UInt8) : ℕ → ℕ → Option ℤ
  | 0, _ => none
  | n + 1, i =>
    if s1 i = s2 i then
      if s1 i = 0 then some 0 else ece391Strcmp s1 s2 n (i + 1)
    else some ((s1 i).toNat - (s2 i).toNat)

/-! ## Variables in memory -/

/-- An `int32_t` variable at offset `a`. -/
def loadInt (mem : ℕ → UInt8) (a : ℕ) : ℤ := (BitVec.ofNat 32 (wordAt mem a)).toInt

def storeInt (mem : ℕ → UInt8) (a : ℕ) (v : ℤ) : ℕ → UInt8 := fun i =>
  if a ≤ i ∧ i < a + 4 then UInt8.ofNat ((BitVec.ofInt 32 v).toNat / 2 ^ (8 * (i - a))) else mem i

section

variable {mem mem' : ℕ → UInt8} {a : ℕ} {v : ℤ}

theorem loadInt_congr (h : ∀ i, a ≤ i → i < a + 4 → mem i = mem' i) :
    loadInt mem a = loadInt mem' a := by
  rw [loadInt, loadInt, wordAt, wordAt, h a (by omega) (by omega), h (a + 1) (by omega) (by omega),
    h (a + 2) (by omega) (by omega), h (a + 3) (by omega) (by omega)]

end

/-! ## Programs -/

/-- `main` of `ece391cat.c`. The memory starts with `buf`. -/
inductive Cat where
  | args (mem : ℕ → UInt8)
  | openFile (mem : ℕ → UInt8)
  | readFile (mem : ℕ → UInt8)
  | writeFile (mem : ℕ → UInt8)
  | message (text : List UInt8) (status : ℤ)
  | ended (status : ℤ)

/-- Where `fd` and `cnt` lie, counted from `buf` on. -/
abbrev Cat.fdOffset : ℕ := 1024
abbrev Cat.cntOffset : ℕ := 1028

def Cat.notFound : List UInt8 := literal "file not found\n"

def Cat.act : Cat → Act Cat Call Reply
  | .args mem => .call (.getargs mem 1024) fun r =>
    if 0 ≠ r.value then .message (literal "could not read arguments\n") 3 else .openFile r.buf
  | .openFile mem => .call (.open mem) fun r =>
    if -1 = r.value then .message notFound 2 else .readFile (storeInt mem fdOffset r.value)
  | .readFile mem => .call (.read (loadInt mem fdOffset) mem 1024) fun r =>
    if 0 = r.value then .ended 0
    else if -1 = r.value then .message (literal "file read failed\n") 3
    else .writeFile (storeInt r.buf cntOffset r.value)
  | .writeFile mem => .call (.write 1 mem (loadInt mem cntOffset)) fun r =>
    if -1 = r.value then .ended 3 else .readFile mem
  | .message text status => .call (puts text) fun _ => .ended status
  | .ended status => .exit status

/-- `main` of `ece391ls.c`. -/
inductive Ls where
  | openDir (buf : ℕ → UInt8)
  | readEntry (fd : ℤ) (buf : ℕ → UInt8)
  | writeEntry (fd cnt : ℤ) (buf : ℕ → UInt8)
  | outside
  | message (text : List UInt8) (status : ℤ)
  | ended (status : ℤ)

def SBUFSIZE : ℤ := 33

/-- The store of the newline is the only access to `buf` in the program itself. -/
def Ls.act : Ls → Act Ls Call Reply
  | .openDir buf => .call (.open (cString (literal "."))) fun r =>
    if -1 = r.value then .message (literal "directory open failed\n") 2 else .readEntry r.value buf
  | .readEntry fd buf => .call (.read fd buf (SBUFSIZE - 1)) fun r =>
    if 0 = r.value then .ended 0
    else if -1 = r.value then .message (literal "directory entry read failed\n") 3
    else if 0 ≤ r.value ∧ r.value < SBUFSIZE then
      .writeEntry fd r.value (Function.update r.buf r.value.toNat 0x0A)
    else .outside
  | .writeEntry fd cnt buf => .call (.write 1 buf (cnt + 1)) fun r =>
    if -1 = r.value then .ended 3 else .readEntry fd buf
  | .outside => .undefined
  | .message text status => .call (puts text) fun _ => .ended status
  | .ended status => .exit status

/-- `main` of `ece391shell.c`. -/
inductive Shell where
  | start (buf : ℕ → UInt8)
  | prompt (buf : ℕ → UInt8)
  | readLine (buf : ℕ → UInt8)
  | command (buf : ℕ → UInt8)
  | report (text : List UInt8) (buf : ℕ → UInt8)
  | message (text : List UInt8) (status : ℤ)
  | outside
  | ended (status : ℤ)

/-- The part of the loop between `read` and `execute`. -/
def Shell.examine (cnt : ℤ) (buf : ℕ → UInt8) : Shell :=
  let cnt := if 0 < cnt ∧ 0x0A = buf (cnt - 1).toNat then cnt - 1 else cnt
  if ¬ (0 ≤ cnt ∧ cnt < 1024) then .outside
  else
    let buf := Function.update buf cnt.toNat 0
    if ece391Strcmp buf (cString (literal "exit")) 5 0 = some 0 then .ended 0
    else if 0 = buf 0 then .prompt buf
    else .command buf

def Shell.act : Shell → Act Shell Call Reply
  | .start buf => .call (puts (literal "Starting 391 Shell\n")) fun _ => .prompt buf
  | .prompt buf => .call (puts (literal "391OS> ")) fun _ => .readLine buf
  | .readLine buf => .call (.read 0 buf 1023) fun r =>
    if -1 = r.value then .message (literal "read from keyboard failed\n") 3
    else examine r.value r.buf
  | .command buf => .call (.execute buf) fun r =>
    if -1 = r.value then .report (literal "no such command\n") buf
    else if 256 = r.value then .report (literal "program terminated by exception\n") buf
    else if 0 ≠ r.value then .report (literal "program terminated abnormally\n") buf
    else .prompt buf
  | .report text buf => .call (puts text) fun _ => .prompt buf
  | .message text status => .call (puts text) fun _ => .ended status
  | .outside => .undefined
  | .ended status => .exit status

/-- `main` of `ece391counter.c`. -/
inductive Counter where
  | ask (buf : ℕ → UInt8)
  | readChoice (buf : ℕ → UInt8)
  | count (i max : ℕ) (buf : ℕ → UInt8)
  | newline (i max : ℕ) (buf : ℕ → UInt8)
  | message (text : List UInt8) (status : ℤ)
  | outside
  | ended (status : ℤ)

def Counter.question : List UInt8 :=
  literal "Enter the Test Number: (0): 100, (1): 10000, (2): 100000\n"

def Counter.wrongChoice : List UInt8 := literal "Wrong Choice!\n"

/-- The part between `read` and the loop. -/
def Counter.choose (cnt : ℤ) (buf : ℕ → UInt8) : Counter :=
  if ¬ (0 ≤ cnt ∧ cnt < 1024) then .outside
  else
    let buf := Function.update buf cnt.toNat 0
    let len := strlenFrom buf 1024 0
    if len > 1 ∨ len = 1 ∧ (buf 0 < 0x30 ∨ buf 0 > 0x32) then .message wrongChoice 0
    else if buf 0 = 0x30 then .count 0 100 buf
    else if buf 0 = 0x31 then .count 0 10000 buf
    else if buf 0 = 0x32 then .count 0 100000 buf
    else .count 0 0 buf

/-- `ece391_itoa` is the `itoa` of the kernel. -/
def Counter.act : Counter → Act Counter Call Reply
  | .ask buf => .call (puts question) fun _ => .readChoice buf
  | .readChoice buf => .call (.read 0 buf 1023) fun r =>
    if -1 = r.value then .message (literal "Can't read the number from keyboard.\n") 3
    else choose r.value r.buf
  | .count i max buf =>
    if i < max then
      match Lib.itoa (i + 1) ⟨1024, buf⟩ 0 10 with
      | none => .undefined
      | some b => .call (.write 1 b.cell (strlenFrom b.cell 1024 0)) fun _ => .newline i max b.cell
    else .exit 0
  | .newline i max buf => .call (puts (literal "\n")) fun _ => .count (i + 1) max buf
  | .message text status => .call (puts text) fun _ => .ended status
  | .outside => .undefined
  | .ended status => .exit status

end KudOS.User
