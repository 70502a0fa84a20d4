import KudOS.Assembly

/-!
# The system call gateway

`syscall_handler` of `syscall_asm.S`, line by line. The check of `eax` admits the numbers
1 to 10, and the table has 8 entries.
-/

namespace KudOS

open Assembly

inductive Syscall where
  | halt | execute | read | write | open | close | getargs | vidmap
  deriving DecidableEq, Repr

inductive EntryLabel where
  | syscallReturn | syscallError
  deriving DecidableEq, Repr

/-- The segment of the kernel's data, and the bound of the check. -/
def kernelDs : BitVec 32 := 0x18
def maxSyscall : BitVec 32 := 10

def syscallTable : List Syscall :=
  [.halt, .execute, .read, .write, .open, .close, .getargs, .vidmap]

def syscallHandler : List (Line EntryLabel) :=
  [.op (.push (.seg .fs)),
   .op (.push (.seg .es)),
   .op (.push (.seg .ds)),
   .op (.push (.reg .ebp)),
   .op (.push (.reg .edi)),
   .op (.push (.reg .esi)),
   .op (.push (.reg .edx)),
   .op (.push (.reg .ecx)),
   .op (.push (.reg .ebx)),
   .op (.movImm kernelDs .edx),
   .op (.movSeg .edx .ds),
   .op (.movSeg .edx .es),
   .op (.cmp maxSyscall .eax),
   .ja .syscallError,
   .op (.cmp 0 .eax),
   .jle .syscallError,
   .op (.sub 1 .eax),
   .callTable .eax,
   .label .syscallReturn,
   .op .cli,
   .op (.pop (.reg .ebx)),
   .op (.pop (.reg .ecx)),
   .op (.pop (.reg .edx)),
   .op (.pop (.reg .esi)),
   .op (.pop (.reg .edi)),
   .op (.pop (.reg .ebp)),
   .op (.pop (.seg .ds)),
   .op (.pop (.seg .es)),
   .op (.pop (.seg .fs)),
   .iret,
   .label .syscallError,
   .op (.movImm (-1) .eax),
   .jmp .syscallReturn]

/-- The registers that the handler gives back, in the order of the pops. -/
def savedSlots : List Slot :=
  [.reg .ebx, .reg .ecx, .reg .edx, .reg .esi, .reg .edi, .reg .ebp, .seg .ds, .seg .es, .seg .fs]

namespace Gateway

variable {callee : Target Syscall → Cpu → Cpu} {s u : Cpu}

/-- The handler with the effect of the calls that it makes. -/
def handle (callee : Target Syscall → Cpu → Cpu) (n : ℕ) (rest : List (Line EntryLabel))
    (s : Cpu) : Option (Cpu × List (Call Syscall)) :=
  run syscallHandler syscallTable callee n rest s

/-- The listing from `syscall_error` on, from `syscall_return` on, and behind the pushes. -/
def errorCode : List (Line EntryLabel) := [.op (.movImm (-1) .eax), .jmp .syscallReturn]

def returnCode : List (Line EntryLabel) :=
  .op .cli :: (savedSlots.map (fun x => .op (.pop x)) ++ .iret :: .label .syscallError :: errorCode)

def checkCode : List (Line EntryLabel) :=
  [.op (.movImm kernelDs .edx), .op (.movSeg .edx .ds), .op (.movSeg .edx .es),
    .op (.cmp maxSyscall .eax), .ja .syscallError, .op (.cmp 0 .eax), .jle .syscallError,
    .op (.sub 1 .eax), .callTable .eax, .label .syscallReturn] ++ returnCode

theorem syscallHandler_eq :
    syscallHandler = savedSlots.reverse.map (fun x => .op (.push x)) ++ checkCode := rfl

/-- The state behind the pushes and the loads of the segments. -/
def entered (s : Cpu) : Cpu :=
  let s := { s with stack := savedSlots.map s.get ++ s.stack }
  let s := s.setReg .edx kernelDs
  (s.setSeg .ds (kernelDs.setWidth 16)).setSeg .es (kernelDs.setWidth 16)

/-- The state at `iret`, when the registers of `s` were saved and `u` is left. -/
def left (s u : Cpu) : Cpu :=
  Cpu.restore s savedSlots { u with intr := false, stack := s.stack }

theorem handle_return (h : u.stack = savedSlots.map s.get ++ s.stack) :
    handle callee 11 returnCode u = some (left s u, []) := by
  have hpops := run_pops syscallHandler syscallTable callee 1 savedSlots
    (.iret :: .label .syscallError :: errorCode) s { u with intr := false } s.stack h
  exact hpops

theorem handle_error (h : u.stack = savedSlots.map s.get ++ s.stack) :
    handle callee 13 errorCode u = some (left s (u.setReg .eax (-1)), []) :=
  handle_return (u := u.setReg .eax (-1)) h

/-- The states behind the two comparisons. -/
def compared (s : Cpu) : Cpu := (entered s).compare (s.reg .eax) maxSyscall

def compared0 (s : Cpu) : Cpu := (compared s).compare (s.reg .eax) 0

/-- The listing behind each of the two jumps. -/
def callCode : List (Line EntryLabel) :=
  [.op (.sub 1 .eax), .callTable .eax, .label .syscallReturn] ++ returnCode

def positiveCode : List (Line EntryLabel) :=
  [.op (.cmp 0 .eax), .jle .syscallError] ++ callCode

theorem handle_entry (n : ℕ) :
    handle callee (n + 14) syscallHandler s =
      handle callee n (if (compared s).above then errorCode else positiveCode) (compared s) := by
  have hpushes := run_pushes syscallHandler syscallTable callee (n + 5) savedSlots.reverse checkCode s
  rw [← syscallHandler_eq] at hpushes
  exact hpushes

theorem handle_positive (n : ℕ) :
    handle callee (n + 2) positiveCode (compared s) =
      handle callee n (if (compared0 s).lessEqual then errorCode else callCode) (compared0 s) :=
  rfl

/-- The state in which the function is called. -/
def calling (s : Cpu) : Cpu :=
  ((compared0 s).compare (s.reg .eax) 1).setReg .eax (s.reg .eax - 1)

theorem calling_stack (s : Cpu) : (calling s).stack = savedSlots.map s.get ++ s.stack := rfl

/-- Numbers outside of 1 to 10 lead to `syscall_error`. -/
theorem handle_rejected (h : ¬ (1 ≤ (s.reg .eax).toNat ∧ (s.reg .eax).toNat ≤ 10)) :
    ∃ (n : ℕ) (u : Cpu), handle callee n syscallHandler s = some (left s (u.setReg .eax (-1)), []) := by
  by_cases hbig : 10 < (s.reg .eax).toNat
  · have habove : (compared s).above = true := (above_compare _ _ _).mpr hbig
    refine ⟨13 + 14, compared s, ?_⟩
    rw [handle_entry, if_pos habove]
    exact handle_error rfl
  · have habove : ¬ (compared s).above = true := fun h => hbig ((above_compare _ _ _).mp h)
    have h0 : (s.reg .eax).toNat = 0 := by omega
    have hzero : s.reg .eax = 0 := BitVec.toNat_inj.mp h0
    have hle : (compared0 s).lessEqual = true :=
      (lessEqual_compare _ _ _).mpr (Int.le_of_eq (congrArg BitVec.toInt hzero))
    refine ⟨13 + 2 + 14, compared0 s, ?_⟩
    rw [handle_entry, if_neg habove, handle_positive, if_pos hle]
    exact handle_error rfl

/-- Numbers from 1 to 10 are used as an index into the table. -/
theorem handle_accepted (hret : ∀ t u, (callee t u).stack = u.stack)
    (h1 : 1 ≤ (s.reg .eax).toNat) (h10 : (s.reg .eax).toNat ≤ 10) :
    ∃ n, handle callee n syscallHandler s =
      some (left s (callee (fetch syscallTable (s.reg .eax - 1)) (calling s)),
        [⟨fetch syscallTable (s.reg .eax - 1), (calling s).stack⟩]) := by
  have habove : ¬ (compared s).above = true := by
    rw [compared, above_compare]
    change ¬ 10 < _
    omega
  have hle : ¬ (compared0 s).lessEqual = true := by
    rw [compared0, lessEqual_compare, BitVec.toInt_eq_toNat_of_lt (by omega)]
    change ¬ _ ≤ (0 : Int)
    omega
  have hcall := @handle_return callee s (callee (fetch syscallTable (s.reg .eax - 1)) (calling s))
    ((hret (fetch syscallTable (s.reg .eax - 1)) (calling s)).trans (calling_stack s))
  refine ⟨11 + 3 + 2 + 14, ?_⟩
  rw [handle_entry, if_neg habove, handle_positive, if_neg hle]
  change Option.map _ (handle callee 11 returnCode
    (callee (fetch syscallTable (s.reg .eax - 1)) (calling s))) = _
  rw [hcall]
  rfl

theorem left_get (s u : Cpu) {x : Slot} (h : x ∈ savedSlots) : (left s u).get x = s.get x :=
  Cpu.restore_get_of_mem s _ h

theorem left_eax (s u : Cpu) : (left s u).reg .eax = u.reg .eax :=
  Cpu.restore_get_of_not_mem s { u with intr := false, stack := s.stack }
    (y := .reg .eax) (by decide)

theorem left_stack (s u : Cpu) : (left s u).stack = s.stack := Cpu.restore_stack ..

/-! ## The contract -/

/-- The function that the number `eax` stands for. -/
def requested (eax : BitVec 32) : Option Syscall :=
  if eax = 0 then none else syscallTable[eax.toNat - 1]?

/-- What the calls made and the value in `eax` at the end have to be. -/
def Serves (callee : Target Syscall → Cpu → Cpu) (s s' : Cpu) (calls : List (Call Syscall)) :
    Option Syscall → Prop
  | some f => ∃ u : Cpu, u.stack.take 3 = [s.reg .ebx, s.reg .ecx, s.reg .edx] ∧
      calls = [⟨.entry f, u.stack⟩] ∧ s'.reg .eax = (callee (.entry f) u).reg .eax
  | none => calls = [] ∧ s'.reg .eax = -1

/-- The handler comes to its `iret` on the frame on which it was entered, with the
registers of the caller, and has called the function that was asked for and no other. -/
def Contract (callee : Target Syscall → Cpu → Cpu) (s : Cpu) : Prop :=
  ∃ n s' calls, handle callee n syscallHandler s = some (s', calls) ∧ s'.stack = s.stack ∧
    (∀ x ∈ savedSlots, s'.get x = s.get x) ∧ Serves callee s s' calls (requested (s.reg .eax))

theorem fetch_syscallTable {eax : BitVec 32} (h1 : 1 ≤ eax.toNat) (h10 : eax.toNat ≤ 10) :
    (4 * (eax - 1)).toNat / 4 = eax.toNat - 1 := by
  bv_omega

theorem contract_rejected (h : ¬ (1 ≤ (s.reg .eax).toNat ∧ (s.reg .eax).toNat ≤ 10)) :
    Contract callee s := by
  obtain ⟨n, u, hrun⟩ := @handle_rejected callee s h
  refine ⟨n, _, _, hrun, left_stack s _, fun x hx => left_get s _ hx, ?_⟩
  have hnone : requested (s.reg .eax) = none := by
    rw [requested]
    split
    · rfl
    · rename_i hne
      have hpos : (s.reg .eax).toNat ≠ 0 := fun h0 => hne (BitVec.toNat_inj.mp h0)
      rw [List.getElem?_eq_none]
      change 8 ≤ _
      omega
  rw [hnone]
  exact ⟨rfl, left_eax s _⟩

theorem contract_accepted (hret : ∀ t u, (callee t u).stack = u.stack)
    (h1 : 1 ≤ (s.reg .eax).toNat) (h8 : (s.reg .eax).toNat ≤ 8) : Contract callee s := by
  obtain ⟨n, hrun⟩ := handle_accepted hret h1 (by omega)
  have hlt : (s.reg .eax).toNat - 1 < syscallTable.length := by
    change _ < 8
    omega
  have hne : s.reg .eax ≠ 0 := by
    intro h0
    rw [h0] at h1
    exact absurd h1 (by decide)
  have hfetch : fetch syscallTable (s.reg .eax - 1) =
      .entry (syscallTable.get ⟨(s.reg .eax).toNat - 1, hlt⟩) := by
    rw [fetch, fetch_syscallTable h1 (by omega), List.getElem?_eq_getElem hlt]
    rfl
  rw [hfetch] at hrun
  refine ⟨n, _, _, hrun, left_stack s _, fun x hx => left_get s _ hx, ?_⟩
  rw [requested, if_neg hne, List.getElem?_eq_getElem hlt]
  exact ⟨calling s, rfl, rfl, left_eax s _⟩

/-- Numbers 9 and 10 call through the memory behind the table. -/
theorem not_contract_stray (hret : ∀ t u, (callee t u).stack = u.stack)
    (h9 : 9 ≤ (s.reg .eax).toNat) (h10 : (s.reg .eax).toNat ≤ 10) :
    ¬ Contract callee s := by
  obtain ⟨n, hrun⟩ := handle_accepted hret (by omega) h10
  have hge : syscallTable.length ≤ (s.reg .eax).toNat - 1 := by
    change 8 ≤ _
    omega
  have hnone : requested (s.reg .eax) = none := by
    rw [requested, List.getElem?_eq_none hge]
    split <;> rfl
  rintro ⟨k, s', calls, hrun', -, -, hserves⟩
  rw [hnone] at hserves
  have heq := run_unique syscallHandler syscallTable callee hrun hrun'
  have hcalls := (Prod.mk.inj heq).2
  rw [hserves.1] at hcalls
  cases hcalls

/-- For all registers at `int 0x80` and all functions that return with their argument
slots as they were: the contract holds exactly if the number is not 9 or 10. -/
theorem contract_iff (hret : ∀ t u, (callee t u).stack = u.stack) (s : Cpu) :
    Contract callee s ↔ s.reg .eax ≠ 9 ∧ s.reg .eax ≠ 10 := by
  have h9 : s.reg .eax = 9 ↔ (s.reg .eax).toNat = 9 := BitVec.toNat_inj.symm
  have h10 : s.reg .eax = 10 ↔ (s.reg .eax).toNat = 10 := BitVec.toNat_inj.symm
  rw [ne_eq, ne_eq, h9, h10]
  constructor
  · intro hcontract
    by_contra hno
    exact not_contract_stray hret (by omega) (by omega) hcontract
  · intro hno
    by_cases hin : 1 ≤ (s.reg .eax).toNat ∧ (s.reg .eax).toNat ≤ 10
    · exact contract_accepted hret hin.1 (by omega)
    · exact contract_rejected hin

/-- A processor at `int 0x80` with the given number, on the frame of a user program. -/
def userCpu (eax : BitVec 32) : Cpu where
  reg r := if r = .eax then eax else 0
  seg _ := 0x2B
  stack := [0x8048000, 0x23, 0x200, 0x83FFFFC, 0x2B]
  zf := false
  cf := false
  sf := false
  ovf := false
  intr := true

/-- The number of `close`, with a function that fails. -/
theorem contract_close : Contract (fun _ u => u.setReg .eax (-1)) (userCpu 6) := by
  have hret : ∀ (_ : Target Syscall) (u : Cpu), (u.setReg .eax (-1)).stack = u.stack :=
    fun _ _ => rfl
  exact (contract_iff hret (userCpu 6)).mpr (by decide)

/-- The number 9 calls what lies behind the table, and no function is asked for. -/
theorem contract_nine_fails : ¬ Contract (fun _ u => u.setReg .eax (-1)) (userCpu 9) :=
  not_contract_stray (fun _ _ => rfl) (by decide) (by decide)

end Gateway
end KudOS
