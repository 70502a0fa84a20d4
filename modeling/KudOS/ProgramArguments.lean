import KudOS.ShellStart

/-!
# getargs

`getargs` copies as many bytes as its caller asks for, from `cmd_args` on. Behind the
string lie the rest of the field, the end of the PCB and the PCBs that follow in the
array, so the copy is followed through the layout of `pcbs` in memory.
-/

namespace KudOS

/-! ## PCBs in memory -/

/-- What the linker fixed: the addresses of the operation tables, and the memory behind
the array `pcbs`. -/
structure PcbLink where
  opsAddr : FileOps → ℕ
  behind : ℕ → UInt8

/-- Byte `k` of a 32-bit word. -/
def wordByte (w k : ℕ) : UInt8 := (w / 256 ^ k).toUInt8

def FsDescriptor.byte (l : PcbLink) (d : FsDescriptor) (o : ℕ) : UInt8 :=
  if o < 4 then wordByte (d.fileOps.elim 0 l.opsAddr) o
  else if o < 8 then wordByte d.inodePtr (o - 4)
  else if o < 12 then wordByte d.filePosition (o - 8)
  else wordByte d.flags (o - 12)

/-- `sizeof(pcb_t)`, and the offset of `cmd_args` in it. -/
def pcbSize : ℕ := 416
def cmdArgsOffset : ℕ := 281

/-- Byte `o` of a PCB. Three bytes of padding precede the last field. -/
def Pcb.byte (l : PcbLink) (p : Pcb) (o : ℕ) : UInt8 :=
  if o < 128 then (p.fileArray (o / 16)).byte l (o % 16)
  else if o < 132 then wordByte p.programId (o - 128)
  else if o < 136 then wordByte p.parentId (o - 132)
  else if o < 140 then wordByte p.address (o - 136)
  else if o < 144 then wordByte p.esp (o - 140)
  else if o < 148 then wordByte p.ebp (o - 144)
  else if o < 152 then wordByte p.lastEip (o - 148)
  else if o < 153 then p.esp0.toUInt8
  else if o < 281 then p.cmdName (o - 153)
  else if o < 409 then p.cmdArgs (o - 281)
  else if o < 412 then 0
  else wordByte (p.processTerminal % 2 ^ 32).toNat (o - 412)

/-- Byte `a` of the memory from the array `pcbs` on. -/
def pcbsByte (l : PcbLink) (pcbs : ℕ → Pcb) (a : ℕ) : UInt8 :=
  if a / pcbSize < maxProcesses then (pcbs (a / pcbSize)).byte l (a % pcbSize)
  else l.behind (a - maxProcesses * pcbSize)

namespace Kernel

/-- The memory from `curr_pcb->cmd_args` on. -/
def argsMemory (l : PcbLink) (s : Kernel) (k : ℕ) : UInt8 :=
  pcbsByte l s.pcbs (s.cur * pcbSize + cmdArgsOffset + k)

/-- `getargs`. The buffer is the memory behind the pointer, and is returned as it is
left. A negative count is a copy of more than 2 GB, which leaves the mapped pages. -/
def getargs (l : PcbLink) (s : Kernel) (buf : Option (ℕ → UInt8)) (nbytes : ℤ) :
    Except Stop (ℤ × Option (ℕ → UInt8)) :=
  match buf with
  | none => .ok (-1, none)
  | some b =>
    if nbytes < 0 then .error .fault
    else
      let b := memcpy b 0 (s.argsMemory l) nbytes.toNat
      .ok (0, some (Function.update b nbytes.toNat 0))

/-! ## Two states with the same arguments -/

/-- Process `c` is current and its arguments are the string `args`. -/
structure HasArgs (s : Kernel) (c : ℕ) (args : List UInt8) : Prop where
  cur : s.cur = c
  cmdArgs : ∀ k ≤ args.length, (s.pcbs c).cmdArgs k = cString args k

/-- The PCB of process `c` is the same up to the bytes of `cmd_args`. -/
def SameButArgs (c : ℕ) (s s' : Kernel) : Prop :=
  s'.pcbs c = { s.pcbs c with cmdArgs := (s'.pcbs c).cmdArgs }

/-- Two states in which process `c` is current and has the arguments `args` cannot be
told apart by `getargs(buf, nbytes)`, whatever else is in the array `pcbs`. -/
def OwnArgsOnly (c : ℕ) (args : List UInt8) (buf : Option (ℕ → UInt8)) (nbytes : ℤ) : Prop :=
  ∀ (l : PcbLink) (s s' : Kernel), s.HasArgs c args → s'.HasArgs c args → SameButArgs c s s' →
    s.getargs l buf nbytes = s'.getargs l buf nbytes

variable {l : PcbLink} {s s' : Kernel} {c n : ℕ} {args : List UInt8} {b : ℕ → UInt8}

theorem getargs_some (l : PcbLink) (s : Kernel) (b : ℕ → UInt8) (n : ℕ) :
    s.getargs l (some b) n =
      .ok (0, some (Function.update (memcpy b 0 (s.argsMemory l) n) n 0)) := by
  rw [getargs, if_neg (by omega), Int.toNat_natCast]

/-- The buffer depends on the bytes that are copied, and on nothing else. -/
theorem getargs_eq_iff : s.getargs l (some b) n = s'.getargs l (some b) n ↔
    ∀ k < n, s.argsMemory l k = s'.argsMemory l k := by
  rw [getargs_some, getargs_some]
  constructor
  · intro h k hk
    have hbuf := Option.some.inj (Prod.mk.inj (Except.ok.inj h)).2
    have hat := congrFun hbuf k
    rw [Function.update_of_ne (by omega), Function.update_of_ne (by omega), memcpy, memcpy,
      if_pos (by omega), if_pos (by omega)] at hat
    exact hat
  · intro h
    have hbuf : memcpy b 0 (s.argsMemory l) n = memcpy b 0 (s'.argsMemory l) n := by
      funext k
      rw [memcpy, memcpy]
      split
      · exact h (k - 0) (by omega)
      · rfl
    rw [hbuf]

/-- The bytes behind `cmd_args`: first the rest of the current PCB. -/
theorem argsMemory_own (hc : s.cur ≤ 6) {k : ℕ} (hk : k < 135) :
    s.argsMemory l k = s.curPcb.byte l (281 + k) := by
  have hdiv : (s.cur * pcbSize + cmdArgsOffset + k) / pcbSize = s.cur := by
    rw [pcbSize, cmdArgsOffset]
    omega
  have hmod : (s.cur * pcbSize + cmdArgsOffset + k) % pcbSize = 281 + k := by
    rw [pcbSize, cmdArgsOffset]
    omega
  rw [argsMemory, pcbsByte, hdiv, hmod, if_pos (by rw [maxProcesses]; omega)]
  rfl

theorem byte_cmdArgs (l : PcbLink) (p : Pcb) {k : ℕ} (hk : k < 128) :
    p.byte l (281 + k) = p.cmdArgs k := by
  have hsub : 281 + k - 281 = k := by omega
  rw [Pcb.byte]
  repeat rw [if_neg (by omega)]
  rw [if_pos (by omega), hsub]

theorem byte_tail (l : PcbLink) (p : Pcb) {o : ℕ} (ho : 409 ≤ o) :
    p.byte l o = if o < 412 then 0 else wordByte (p.processTerminal % 2 ^ 32).toNat (o - 412) := by
  rw [Pcb.byte]
  repeat rw [if_neg (by omega)]

/-- Behind the last PCB lies memory that is not part of the array. -/
theorem argsMemory_behind (hc : s.cur = 6) {k : ℕ} (hk : 135 ≤ k) :
    s.argsMemory l k = l.behind (k - 135) := by
  have hdiv : ¬ (s.cur * pcbSize + cmdArgsOffset + k) / pcbSize < maxProcesses := by
    rw [hc, pcbSize, cmdArgsOffset, maxProcesses]
    omega
  have hrest : s.cur * pcbSize + cmdArgsOffset + k - maxProcesses * pcbSize = k - 135 := by
    rw [hc, pcbSize, cmdArgsOffset, maxProcesses]
    omega
  rw [argsMemory, pcbsByte, if_neg hdiv, hrest]

theorem HasArgs.argsMemory (h : s.HasArgs c args) (hc : c ≤ 6) (hlen : args.length < 128) {k : ℕ}
    (hk : k ≤ args.length) : s.argsMemory l k = cString args k := by
  have hcur := h.cur
  rw [argsMemory_own (by omega) (by omega), byte_cmdArgs l _ (by omega), curPcb, hcur]
  exact h.cmdArgs k hk

/-- Beyond the field the two states agree up to the end of the PCB. -/
theorem SameButArgs.argsMemory (hsame : SameButArgs c s s') (h : s.cur = c) (h' : s'.cur = c)
    (hc : c ≤ 6) {k : ℕ} (hk : 128 ≤ k) (hk' : k < 135) :
    s.argsMemory l k = s'.argsMemory l k := by
  rw [argsMemory_own (by omega) hk', argsMemory_own (by omega) hk', byte_tail l _ (by omega),
    byte_tail l _ (by omega), curPcb, curPcb, h, h', hsame]

/-! ## States that differ -/

/-- Process `c` is current, and all processes have the arguments `args`. -/
def withArgs (c : ℕ) (args : List UInt8) : Kernel :=
  { bootKernel with
    currentPcb := some c
    pcbs := fun _ => { Pcb.zero with cmdArgs := cString args } }

/-- A byte is left behind the terminator by an earlier program in the slot. -/
def withRemains (c : ℕ) (args : List UInt8) : Kernel :=
  (withArgs c args).setPcb c
    { Pcb.zero with cmdArgs := Function.update (cString args) (args.length + 1) 1 }

/-- The process in the next slot has a terminal descriptor. -/
def withNeighbour (c : ℕ) (args : List UInt8) : Kernel :=
  (withArgs c args).setPcb (c + 1)
    { Pcb.zero with fileArray := fun _ => ⟨some .stdinOps, 0, 0, 1⟩ }

theorem withArgs_hasArgs (c : ℕ) (args : List UInt8) : (withArgs c args).HasArgs c args :=
  ⟨rfl, fun _ _ => rfl⟩

theorem withRemains_pcbs (c : ℕ) (args : List UInt8) : (withRemains c args).pcbs c =
    { Pcb.zero with cmdArgs := Function.update (cString args) (args.length + 1) 1 } :=
  Function.update_self ..

theorem withRemains_hasArgs (c : ℕ) (args : List UInt8) : (withRemains c args).HasArgs c args := by
  refine ⟨rfl, fun k hk => ?_⟩
  rw [withRemains_pcbs]
  exact Function.update_of_ne (by omega) ..

theorem withNeighbour_pcbs (c : ℕ) (args : List UInt8) :
    (withNeighbour c args).pcbs c = { Pcb.zero with cmdArgs := cString args } :=
  Function.update_of_ne (by omega) ..

theorem withNeighbour_hasArgs (c : ℕ) (args : List UInt8) :
    (withNeighbour c args).HasArgs c args := by
  refine ⟨rfl, fun k hk => ?_⟩
  rw [withNeighbour_pcbs]

/-- The rest of the field shows what an earlier program left there. -/
theorem remains_revealed (hc : c ≤ 6) (hlen : args.length < 127) (hn : args.length + 1 < n) :
    ¬ OwnArgsOnly c args (some b) n := by
  intro honly
  have hsame : SameButArgs c (withArgs c args) (withRemains c args) := by
    rw [SameButArgs, withRemains_pcbs]
    rfl
  have heq := getargs_eq_iff.mp (honly ⟨fun _ => 0, fun _ => 0⟩ _ _ (withArgs_hasArgs c args)
    (withRemains_hasArgs c args) hsame) (args.length + 1) hn
  have hold : (withArgs c args).argsMemory ⟨fun _ => 0, fun _ => 0⟩ (args.length + 1) = 0 := by
    have hcur : (withArgs c args).cur ≤ 6 := hc
    rw [argsMemory_own hcur (by omega), byte_cmdArgs _ _ (by omega)]
    change args.getD (args.length + 1) 0 = 0
    rw [List.getD_eq_getElem?_getD, List.getElem?_eq_none (by omega), Option.getD_none]
  have hnew : (withRemains c args).argsMemory ⟨fun _ => 0, fun _ => 0⟩ (args.length + 1) = 1 := by
    have hcur : (withRemains c args).cur ≤ 6 := hc
    have hpcb : (withRemains c args).curPcb = _ := withRemains_pcbs c args
    rw [argsMemory_own hcur (by omega), byte_cmdArgs _ _ (by omega), hpcb]
    exact Function.update_self ..
  rw [hold, hnew] at heq
  exact absurd heq (by decide)

/-- Byte 135 is the first one of the next PCB. -/
theorem neighbour_revealed (hc : c < 6) (hn : 135 < n) :
    ¬ OwnArgsOnly c args (some b) n := by
  intro honly
  have hsame : SameButArgs c (withArgs c args) (withNeighbour c args) := by
    rw [SameButArgs, withNeighbour_pcbs]
    rfl
  have heq := getargs_eq_iff.mp (honly ⟨fun _ => 1, fun _ => 0⟩ _ _ (withArgs_hasArgs c args)
    (withNeighbour_hasArgs c args) hsame) 135 hn
  have hnext : ∀ s : Kernel, s.cur = c → s.argsMemory ⟨fun _ => 1, fun _ => 0⟩ 135 =
      (s.pcbs (c + 1)).byte ⟨fun _ => 1, fun _ => 0⟩ 0 := by
    intro s hcur
    have hdiv : (s.cur * pcbSize + cmdArgsOffset + 135) / pcbSize = c + 1 := by
      rw [hcur, pcbSize, cmdArgsOffset]
      omega
    have hmod : (s.cur * pcbSize + cmdArgsOffset + 135) % pcbSize = 0 := by
      rw [hcur, pcbSize, cmdArgsOffset]
      omega
    rw [argsMemory, pcbsByte, hdiv, hmod, if_pos (by rw [maxProcesses]; omega)]
  have hpcb : (withNeighbour c args).pcbs (c + 1) =
      { Pcb.zero with fileArray := fun _ => ⟨some .stdinOps, 0, 0, 1⟩ } := Function.update_self ..
  rw [hnext _ rfl, hnext _ rfl, hpcb] at heq
  simp [withArgs, Pcb.byte, FsDescriptor.byte, wordByte, Pcb.zero, FsDescriptor.zero] at heq

/-- For every process, every argument string that fits its field and every count:
`getargs` reveals the caller's own arguments only exactly if it stops at the
terminator, or the string fills the field and the copy stops in the caller's PCB or
runs from the last PCB out of the array. -/
theorem ownArgsOnly_iff (hc : c ≤ 6) (hlen : args.length < 128) (buf : Option (ℕ → UInt8))
    (n : ℕ) :
    OwnArgsOnly c args buf n ↔ buf = none ∨ n ≤ args.length + 1 ∨
      args.length = 127 ∧ (n ≤ 135 ∨ c = 6) := by
  cases buf with
  | none => exact iff_of_true (fun _ _ _ _ _ _ => rfl) (Or.inl rfl)
  | some b =>
    constructor
    · intro honly
      refine Or.inr ?_
      by_contra hno
      by_cases hshort : args.length < 127
      · exact remains_revealed hc hshort (by omega) honly
      · exact neighbour_revealed (by omega) (by omega) honly
    · intro hcond l s s' h h' hsame
      have hcond := hcond.resolve_left (by simp)
      refine getargs_eq_iff.mpr fun k hk => ?_
      have hcur := h.cur
      have hcur' := h'.cur
      by_cases hstring : k ≤ args.length
      · rw [h.argsMemory hc hlen hstring, h'.argsMemory hc hlen hstring]
      by_cases hown : k < 135
      · exact hsame.argsMemory hcur hcur' hc (by omega) hown
      · rw [argsMemory_behind (by omega) (by omega), argsMemory_behind (by omega) (by omega)]

/-- A buffer that the string fills. -/
theorem ownArgsOnly_exact : OwnArgsOnly 1 (literal "frame0.txt") (some fun _ => 0) 11 :=
  (ownArgsOnly_iff (by decide) (by decide) _ 11).mpr (Or.inr (Or.inl (by decide)))

/-- The count that `cat` passes. -/
theorem cat_reveals_remains : ¬ OwnArgsOnly 1 (literal "frame0.txt") (some fun _ => 0) 1024 :=
  remains_revealed (by decide) (by decide) (by decide)

end Kernel
end KudOS
