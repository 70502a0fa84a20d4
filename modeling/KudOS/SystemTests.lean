import KudOS.UserPrograms

/-!
# The tests of the system calls

`ece391syserr.c` checks that the kernel refuses what it has to refuse. A test function is
the list of its calls, each with the message for an unexpected result, and its verdict.
-/

namespace KudOS.User

open Sessions

/-- The calls that must return -1. -/
inductive Check where
  | read (fd : ℤ)
  | write (fd : ℤ)
  | close (fd : ℤ)
  | open (name : List UInt8)
  | vidmap (screenStart : ℕ)
  | number (num : BitVec 32)

def Check.call (buf : ℕ → UInt8) : Check → Call
  | .read fd => .read fd buf 31
  | .write fd => .write fd buf 31
  | .close fd => .close fd
  | .open name => .open (cString name)
  | .vidmap screenStart => .vidmap screenStart
  | .number num => .number num

/-- The local `buf` behind the call. -/
def Check.bufAfter (buf : ℕ → UInt8) (r : Reply) : Check → ℕ → UInt8
  | .read _ => r.buf
  | _ => buf

/-- `count` is the loop body of `err_open_lots`, and `close` a call whose result is not
looked at. -/
inductive TestLine where
  | check (c : Check) (text : List UInt8)
  | count (name : List UInt8)
  | close (fd : ℤ)
  | verdict (pass fail : List UInt8)
  | countVerdict (pass fail : List UInt8)
  | overall (pass fail : List UInt8)

/-- `fail` and `cnt` of the test at hand, and `fail` of `main`. -/
structure TestVars where
  fail : ℤ
  cnt : ℤ
  total : ℤ
  buf : ℕ → UInt8

def NEG_FD : ℤ := -1073741823
def BIG_FD : ℤ := 1073741823
def BIG_NUM : BitVec 32 := 1073741823
def NEG_NUM : BitVec 32 := -1073741823

/-! ## The tests -/

/-- The body of `err_neg_fd` and of `err_big_fd`. -/
def errFd (fd : ℤ) (pass fail : List UInt8) : List TestLine :=
  [.check (.read fd) (literal "read fail\n"),
   .check (.write fd) (literal "write fail\n"),
   .check (.close fd) (literal "close fail\n"),
   .verdict pass fail]

def errNegFd : List TestLine :=
  errFd NEG_FD (literal "err_neg_fd: PASS\n") (literal "err_neg_fd: FAIL\n")

def errBigFd : List TestLine :=
  errFd BIG_FD (literal "err_big_fd: PASS\n") (literal "err_big_fd: FAIL\n")

def errOpenLots : List TestLine :=
  List.replicate 7 (.count (literal ".")) ++
    (List.range' 2 6).map (fun i => .close i) ++
    [.countVerdict (literal "err_open_lots: PASS\n") (literal "err_open_lots: FAIL\n")]

def errOpen : List TestLine :=
  [.check (.open (literal "helloo")) (literal "'helloo' fail\n"),
   .check (.open (literal "shel")) (literal "'shel' fail\n"),
   .check (.open (literal "")) (literal "empty string fail\n"),
   .verdict (literal "err_open: PASS\n") (literal "err_open: FAIL\n")]

def errUnopened : List TestLine :=
  (List.range 8).map (fun i => .check (.close i) (literal "close unopened or invalid fd fail\n")) ++
    (List.range' 2 6).map (fun i => .check (.read i) (literal "read from unopened fd fail\n")) ++
    (List.range' 2 6).map (fun i => .check (.write i) (literal "write to unopened fd fail\n")) ++
    [.verdict (literal "err_unopened: PASS\n") (literal "err_unopened: FAIL\n")]

def errVidmap : List TestLine :=
  [.check (.vidmap 0) (literal "Null pointer fail\n"),
   .check (.vidmap 0x400000) (literal "Kernel pointer fail fail\n"),
   .verdict (literal "err_vidmap: PASS\n") (literal "err_vidmap: FAIL\n")]

def errStdinOut : List TestLine :=
  [.check (.write 0) (literal "write to stdin fail\n"),
   .check (.read 1) (literal "read from stdout fail\n"),
   .verdict (literal "err_stdin_out: PASS\n") (literal "err_stdin_out: FAIL\n")]

def errSyscallNum : List TestLine :=
  [.check (.number BIG_NUM) (literal "syscall 0 fail\n"),
   .check (.number NEG_NUM) (literal "big num syscall fail\n"),
   .check (.number 0) (literal "neg num syscall fail\n"),
   .verdict (literal "err_syscall_num: PASS\n") (literal "err_syscall_num: FAIL\n")]

def allTests : List TestLine :=
  errNegFd ++ errBigFd ++ errOpenLots ++ errOpen ++ errUnopened ++ errVidmap ++ errStdinOut ++
    errSyscallNum ++
    [.overall (literal "\nOverall Tests: PASS\n") (literal "\nOverall Tests: FAIL\n")]

/-! ## main -/

/-- `junk` is what the local `buf` of a test holds at first. -/
inductive Syserr where
  | ask (buf junk : ℕ → UInt8)
  | readChoice (buf junk : ℕ → UInt8)
  | lines (code : List TestLine) (v : TestVars)
  | report (text : List UInt8) (code : List TestLine) (v : TestVars)
  | last (text : List UInt8) (status : ℤ)
  | ended (status : ℤ)

namespace Syserr

def question : List UInt8 := literal "Choose from tests 1-8. 0 to run all: "

def invalidTest : List UInt8 := literal "Invalid test number. Choose from tests 1-8 or 0"

/-- The `switch`: the tests to run, if there are any for the number. -/
def testsOf (select : ℤ) : Option (List TestLine) :=
  match select with
  | 0 => some allTests
  | 1 => some errNegFd
  | 2 => some errBigFd
  | 3 => some errOpenLots
  | 4 => some errOpen
  | 5 => some errUnopened
  | 6 => some errVidmap
  | 7 => some errStdinOut
  | 8 => some errSyscallNum
  | _ => none

def choose (buf junk : ℕ → UInt8) : Syserr :=
  match testsOf ((buf 0).toNat - 0x30) with
  | some code => .lines code ⟨0, 0, 0, junk⟩
  | none => .last invalidTest 0

def act : Syserr → Act Syserr Call Reply
  | .ask buf junk => .call (puts question) fun _ => .readChoice buf junk
  | .readChoice buf junk => .call (.read 0 buf 127) fun r =>
    if -1 = r.value then .last (literal "Can't read test #\n") 2 else choose r.buf junk
  | .lines [] v => .exit v.total
  | .lines (.check c text :: code) v => .call (c.call v.buf) fun r =>
    if -1 ≠ r.value then
      .report text code { v with fail := 2, buf := c.bufAfter v.buf r }
    else .lines code { v with buf := c.bufAfter v.buf r }
  | .lines (.count name :: code) v => .call (.open (cString name)) fun r =>
    .lines code { v with cnt := if -1 = r.value then v.cnt + 1 else v.cnt }
  | .lines (.close fd :: code) v => .call (.close fd) fun _ => .lines code v
  | .lines (.verdict pass fail :: code) v =>
    .call (puts (if v.fail ≠ 0 then fail else pass)) fun _ =>
      .lines code { v with fail := 0, total := v.total + v.fail }
  | .lines (.countVerdict pass fail :: code) v =>
    .call (puts (if v.cnt = 1 then pass else fail)) fun _ =>
      .lines code { v with cnt := 0, total := v.total + if v.cnt = 1 then 0 else 2 }
  | .lines (.overall pass fail :: code) v =>
    .call (puts (if v.total ≠ 0 then fail else pass)) fun _ => .lines code v
  | .report text code v => .call (puts text) fun _ => .lines code v
  | .last text status => .call (puts text) fun _ => .ended status
  | .ended status => .exit status

end Syserr
end KudOS.User
