import KudOS.StringInstructions

/-!
# The memory routines

`memset`, `memset_word`, `memset_dword`, `memcpy` and `memmove` of `lib.c`, instruction
by instruction. The segments `ds` and `es` are the same flat segment, so the moves of
segment registers are left out; `edx` is their scratch register and is set before use.
-/

namespace KudOS.StringOps

namespace Cpu

/-- `movb %al, (%edi)`. -/
def storeAl (s : Cpu) : Cpu := { s with mem := Function.update s.mem s.edi (lane s.eax 0) }

/-- `movb (%esi), %al`. -/
def loadAl (s : Cpu) : Cpu := { s with eax := s.eax / 256 * 256 + (s.mem s.esi).toNat }

end Cpu

open Cpu

/-! ## memset -/

def memsetBottom : ℕ → Cpu → Option Cpu
  | 0, _ => none
  | m + 1, s =>
    if s.edx = 0 then some s
    else memsetBottom m { s.storeAl with edi := add s.edi 1, edx := sub s.edx 1 }

def memsetAligned (m : ℕ) (s : Cpu) : Option Cpu :=
  memsetBottom m (rep (stos 4) { s with edx := s.ecx &&& 3, ecx := s.ecx >>> 2, df := false })

def memsetTop : ℕ → Cpu → Option Cpu
  | 0, _ => none
  | m + 1, s =>
    if s.ecx = 0 then some s
    else if s.edi &&& 3 = 0 then memsetAligned m s
    else memsetTop m { s.storeAl with edi := add s.edi 1, ecx := sub s.ecx 1 }

/-- The operand `c << 24 | c << 16 | c << 8 | c`, for the low byte of the argument. -/
def replicated (c : ℕ) : ℕ :=
  let b := c &&& 0xFF
  b <<< 24 ||| b <<< 16 ||| b <<< 8 ||| b

/-! ## memcpy -/

def memcpyBottom : ℕ → Cpu → Option Cpu
  | 0, _ => none
  | m + 1, s =>
    if s.edx = 0 then some s
    else memcpyBottom m { s.loadAl.storeAl with
      edi := add s.edi 1, esi := add s.esi 1, edx := sub s.edx 1 }

def memcpyAligned (m : ℕ) (s : Cpu) : Option Cpu :=
  memcpyBottom m (rep (movs 4) { s with edx := s.ecx &&& 3, ecx := s.ecx >>> 2, df := false })

def memcpyTop : ℕ → Cpu → Option Cpu
  | 0, _ => none
  | m + 1, s =>
    if s.ecx = 0 then some s
    else if s.edi &&& 3 = 0 then memcpyAligned m s
    else memcpyTop m { s.loadAl.storeAl with
      edi := add s.edi 1, esi := add s.esi 1, ecx := sub s.ecx 1 }

/-! ## The calls -/

inductive Call where
  | memset (s c n : ℕ)
  | memsetWord (s c n : ℕ)
  | memsetDword (s c n : ℕ)
  | memcpy (dest src n : ℕ)
  | memmove (dest src n : ℕ)
  deriving DecidableEq, Repr

namespace Call

/-- The code of the call. `m` bounds the number of tests in its loops. -/
def run (m : ℕ) (cpu : Cpu) : Call → Option Cpu
  | memset s c n => memsetTop m { cpu with eax := replicated c, edi := s, ecx := n }
  | memsetWord s c n => some (rep (stos 2) { cpu with eax := c, edi := s, ecx := n, df := false })
  | memsetDword s c n => some (rep (stos 4) { cpu with eax := c, edi := s, ecx := n, df := false })
  | memcpy dest src n => memcpyTop m { cpu with edi := dest, esi := src, ecx := n }
  | memmove dest src n =>
    let s := { cpu with edi := dest, esi := src, ecx := n, df := false }
    if s.esi ≥ s.edi then some (rep (movs 1) s)
    else some (rep (movs 1) { s with
      esi := sub (add s.esi s.ecx) 1, edi := sub (add s.edi s.ecx) 1, df := true })

def runAll (m : ℕ) (cpu : Cpu) (l : List Call) : Option Cpu := l.foldlM (run m) cpu

/-- The memory after the call, byte by byte. -/
def reference (mem : ℕ → UInt8) : Call → ℕ → UInt8
  | memset s c n => filled mem s n fun _ => c.toUInt8
  | memsetWord s c n => filled mem s (2 * n) fun j => lane c (j % 2)
  | memsetDword s c n => filled mem s (4 * n) fun j => lane c (j % 4)
  | memcpy dest src n => copied mem dest src n
  | memmove dest src n => copied mem dest src n

/-- The addresses are words, no block wraps around the address space, and the blocks of
`memcpy` are disjoint. -/
def Proper : Call → Prop
  | memset s _ n => s < 2 ^ 32 ∧ s + n ≤ 2 ^ 32
  | memsetWord s _ n => s < 2 ^ 32 ∧ s + 2 * n ≤ 2 ^ 32
  | memsetDword s _ n => s < 2 ^ 32 ∧ s + 4 * n ≤ 2 ^ 32
  | memcpy dest src n => (dest < 2 ^ 32 ∧ dest + n ≤ 2 ^ 32) ∧ (src < 2 ^ 32 ∧ src + n ≤ 2 ^ 32) ∧
      (dest + n ≤ src ∨ src + n ≤ dest)
  | memmove dest src n => (dest < 2 ^ 32 ∧ dest + n ≤ 2 ^ 32) ∧ (src < 2 ^ 32 ∧ src + n ≤ 2 ^ 32)

instance : DecidablePred Proper := fun a => by
  cases a <;> exact inferInstanceAs (Decidable (_ ∧ _))

end Call

variable {c : Cpu} {m n b : ℕ}

theorem and_three (a : ℕ) : a &&& 3 = a % 4 := Nat.and_two_pow_sub_one_eq_mod a 2

theorem shiftRight_two (a : ℕ) : a >>> 2 = a / 4 := Nat.shiftRight_eq_div_pow a 2

theorem sub_one {a : ℕ} (h : 0 < a) (h' : a ≤ 2 ^ 32) : sub a 1 = a - 1 := by
  rw [sub]
  omega

/-- All bytes of the operand of `memset` are the low byte of its argument. -/
theorem lane_replicated (c : ℕ) {j : ℕ} (hj : j < 4) : lane (replicated c) j = c.toUInt8 := by
  have hall : ∀ b < 256, ∀ j < 4, lane (b <<< 24 ||| b <<< 16 ||| b <<< 8 ||| b) j = b.toUInt8 := by
    decide +kernel
  have hlow : c &&& 0xFF = c % 256 := Nat.and_two_pow_sub_one_eq_mod c 8
  have hbyte : (c % 256).toUInt8 = c.toUInt8 := by
    apply UInt8.toNat.inj
    simp
  simp only [replicated, hlow]
  rw [hall (c % 256) (Nat.mod_lt _ (by decide)) j hj, hbyte]

theorem lane_loadAl (s : Cpu) : lane s.loadAl.eax 0 = s.mem s.esi := by
  apply UInt8.toNat.inj
  rw [lane, loadAl]
  simp

/-! ### One turn of a byte loop -/

theorem filled_storeAl (hn : 0 < n) (h : c.edi + n ≤ 2 ^ 32) :
    filled c.storeAl.mem (add c.edi 1) (sub n 1) (fun _ => lane c.eax 0) =
      filled c.mem c.edi n fun _ => lane c.eax 0 := by
  have hbyte : c.storeAl.mem = filled c.mem c.edi 1 fun _ => lane c.eax 0 := by
    rw [filled_one]
    rfl
  have hcount : 1 + (n - 1) = n := by omega
  rw [hbyte, sub_one hn (by omega), filled_add (by omega), hcount]

theorem copied_storeAl (hn : 0 < n) (hd : c.edi + n ≤ 2 ^ 32) (hs : c.esi + n ≤ 2 ^ 32)
    (hover : c.edi ≤ c.esi ∨ c.esi + n ≤ c.edi) :
    copied c.loadAl.storeAl.mem (add c.edi 1) (add c.esi 1) (sub n 1) =
      copied c.mem c.edi c.esi n := by
  have hbyte : c.loadAl.storeAl.mem = copied c.mem c.edi c.esi 1 := by
    rw [copied, filled_one, Nat.add_zero, ← lane_loadAl]
    rfl
  have hcount : 1 + (n - 1) = n := by omega
  rw [hbyte, sub_one hn (by omega), copied_add (by omega) (by omega) (by omega), hcount]

/-! ### The remainder loops -/

theorem memsetBottom_eq (hm : c.edx < m) (hsize : c.edi + c.edx ≤ 2 ^ 32) :
    ∃ t, memsetBottom m c = some t ∧ t.mem = filled c.mem c.edi c.edx fun _ => lane c.eax 0 := by
  induction m generalizing c with
  | zero => omega
  | succ m ih =>
    rw [memsetBottom]
    by_cases hzero : c.edx = 0
    · rw [if_pos hzero, hzero]
      exact ⟨c, rfl, (filled_zero c.mem c.edi _).symm⟩
    · have hedx := sub_one (a := c.edx) (by omega) (by omega)
      obtain ⟨t, ht, hmem⟩ := ih
        (c := { c.storeAl with edi := add c.edi 1, edx := sub c.edx 1 })
        (by dsimp only; omega) (by dsimp only; rw [add]; omega)
      refine ⟨t, by rw [if_neg hzero]; exact ht, hmem.trans ?_⟩
      dsimp only
      exact filled_storeAl (by omega) hsize

/-- The invariant of the loop is that the rest of the block is still to be copied. -/
theorem memcpyBottom_eq (hm : c.edx < m) (hd : c.edi + c.edx ≤ 2 ^ 32)
    (hs : c.esi + c.edx ≤ 2 ^ 32) (hover : c.edi ≤ c.esi ∨ c.esi + c.edx ≤ c.edi) :
    ∃ t, memcpyBottom m c = some t ∧ t.mem = copied c.mem c.edi c.esi c.edx := by
  induction m generalizing c with
  | zero => omega
  | succ m ih =>
    rw [memcpyBottom]
    by_cases hzero : c.edx = 0
    · rw [if_pos hzero, hzero]
      exact ⟨c, rfl, (filled_zero c.mem c.edi _).symm⟩
    · have hedx := sub_one (a := c.edx) (by omega) (by omega)
      obtain ⟨t, ht, hmem⟩ := ih
        (c := { c.loadAl.storeAl with
          edi := add c.edi 1, esi := add c.esi 1, edx := sub c.edx 1 })
        (by dsimp only; omega) (by dsimp only; rw [add]; omega) (by dsimp only; rw [add]; omega)
        (by dsimp only; rw [add, add]; omega)
      refine ⟨t, by rw [if_neg hzero]; exact ht, hmem.trans ?_⟩
      dsimp only
      exact copied_storeAl (by omega) hd hs hover

/-! ### The aligned parts -/

theorem memsetAligned_eq (hm : 3 < m) (hedi : c.edi < 2 ^ 32) (hsize : c.edi + c.ecx ≤ 2 ^ 32)
    {x : UInt8} (hx : ∀ j < 4, lane c.eax j = x) :
    ∃ t, memsetAligned m c = some t ∧ t.mem = filled c.mem c.edi c.ecx fun _ => x := by
  have hsplit : 4 * (c.ecx / 4) + c.ecx % 4 = c.ecx := Nat.div_add_mod c.ecx 4
  rw [memsetAligned, rep, and_three, shiftRight_two]
  have hmem := repeatOp_stos (c := { c with edx := c.ecx % 4, ecx := c.ecx / 4, df := false })
    (n := c.ecx / 4) rfl (show 0 < 4 by decide) (by dsimp only; omega)
  have heax := repeatOp_frame (stos 4) Cpu.eax (fun _ => rfl) (fun _ _ => rfl) (c.ecx / 4)
    { c with edx := c.ecx % 4, ecx := c.ecx / 4, df := false }
  have hedx := repeatOp_frame (stos 4) Cpu.edx (fun _ => rfl) (fun _ _ => rfl) (c.ecx / 4)
    { c with edx := c.ecx % 4, ecx := c.ecx / 4, df := false }
  have hptr := repeatOp_pointer (k := 4) (n := c.ecx / 4)
    (c := { c with edx := c.ecx % 4, ecx := c.ecx / 4, df := false }) (stos 4) Cpu.edi
    (fun s hs => ⟨next_up hs 4 s.edi, hs⟩) (fun _ _ => rfl) rfl hedi
  generalize repeatOp (stos 4) (c.ecx / 4)
    { c with edx := c.ecx % 4, ecx := c.ecx / 4, df := false } = s at hmem heax hedx hptr ⊢
  dsimp only at hmem heax hedx hptr
  obtain ⟨t, ht, hbottom⟩ := memsetBottom_eq (c := s) (m := m) (by omega)
    (by rw [hptr, hedx, add]; omega)
  refine ⟨t, ht, hbottom.trans ?_⟩
  have hlane : ∀ j, lane c.eax (j % 4) = x := fun j => hx _ (Nat.mod_lt j (by decide))
  rw [hmem, hptr, hedx, heax, hx 0 (by decide)]
  simp only [hlane]
  rw [filled_add (by omega), hsplit]

theorem memcpyAligned_eq (hm : 3 < m) (hedi : c.edi < 2 ^ 32) (hesi : c.esi < 2 ^ 32)
    (hd : c.edi + c.ecx ≤ 2 ^ 32) (hs : c.esi + c.ecx ≤ 2 ^ 32)
    (hover : c.edi ≤ c.esi ∨ c.esi + c.ecx ≤ c.edi) :
    ∃ t, memcpyAligned m c = some t ∧ t.mem = copied c.mem c.edi c.esi c.ecx := by
  have hsplit : 4 * (c.ecx / 4) + c.ecx % 4 = c.ecx := Nat.div_add_mod c.ecx 4
  rw [memcpyAligned, rep, and_three, shiftRight_two]
  have hmem := repeatOp_movs (c := { c with edx := c.ecx % 4, ecx := c.ecx / 4, df := false })
    (n := c.ecx / 4) rfl (show 0 < 4 by decide) (by dsimp only; omega) (by dsimp only; omega)
    (by dsimp only; omega)
  have hedx := repeatOp_frame (movs 4) Cpu.edx (fun _ => rfl) (fun _ _ => rfl) (c.ecx / 4)
    { c with edx := c.ecx % 4, ecx := c.ecx / 4, df := false }
  have hptr := repeatOp_pointer (k := 4) (n := c.ecx / 4)
    (c := { c with edx := c.ecx % 4, ecx := c.ecx / 4, df := false }) (movs 4) Cpu.edi
    (fun s hs => ⟨next_up hs 4 s.edi, hs⟩) (fun _ _ => rfl) rfl hedi
  have hptr' := repeatOp_pointer (k := 4) (n := c.ecx / 4)
    (c := { c with edx := c.ecx % 4, ecx := c.ecx / 4, df := false }) (movs 4) Cpu.esi
    (fun s hs => ⟨next_up hs 4 s.esi, hs⟩) (fun _ _ => rfl) rfl hesi
  generalize repeatOp (movs 4) (c.ecx / 4)
    { c with edx := c.ecx % 4, ecx := c.ecx / 4, df := false } = s at hmem hedx hptr hptr' ⊢
  dsimp only at hmem hedx hptr hptr'
  obtain ⟨t, ht, hbottom⟩ := memcpyBottom_eq (c := s) (m := m) (by omega)
    (by rw [hptr, hedx, add]; omega) (by rw [hptr', hedx, add]; omega)
    (by rw [hptr, hptr', hedx, add, add]; omega)
  refine ⟨t, ht, hbottom.trans ?_⟩
  rw [hmem, hptr, hptr', hedx, copied_add (by omega) (by omega) (by omega), hsplit]

/-! ### The loops up to alignment -/

theorem memsetTop_eq (hm : c.ecx + 4 < m) (hedi : c.edi < 2 ^ 32)
    (hsize : c.edi + c.ecx ≤ 2 ^ 32) {x : UInt8} (hx : ∀ j < 4, lane c.eax j = x) :
    ∃ t, memsetTop m c = some t ∧ t.mem = filled c.mem c.edi c.ecx fun _ => x := by
  induction m generalizing c with
  | zero => omega
  | succ m ih =>
    rw [memsetTop, and_three]
    by_cases hzero : c.ecx = 0
    · rw [if_pos hzero, hzero]
      exact ⟨c, rfl, (filled_zero c.mem c.edi _).symm⟩
    rw [if_neg hzero]
    by_cases haligned : c.edi % 4 = 0
    · rw [if_pos haligned]
      exact memsetAligned_eq (by omega) hedi hsize hx
    · have hecx := sub_one (a := c.ecx) (by omega) (by omega)
      obtain ⟨t, ht, hmem⟩ := ih
        (c := { c.storeAl with edi := add c.edi 1, ecx := sub c.ecx 1 })
        (by dsimp only; omega) (Nat.mod_lt _ (by decide)) (by dsimp only; rw [add]; omega) hx
      refine ⟨t, by rw [if_neg haligned]; exact ht, hmem.trans ?_⟩
      rw [← hx 0 (by decide)]
      dsimp only
      exact filled_storeAl (by omega) hsize

theorem memcpyTop_eq (hm : c.ecx + 4 < m) (hedi : c.edi < 2 ^ 32) (hesi : c.esi < 2 ^ 32)
    (hd : c.edi + c.ecx ≤ 2 ^ 32) (hs : c.esi + c.ecx ≤ 2 ^ 32)
    (hover : c.edi ≤ c.esi ∨ c.esi + c.ecx ≤ c.edi) :
    ∃ t, memcpyTop m c = some t ∧ t.mem = copied c.mem c.edi c.esi c.ecx := by
  induction m generalizing c with
  | zero => omega
  | succ m ih =>
    rw [memcpyTop, and_three]
    by_cases hzero : c.ecx = 0
    · rw [if_pos hzero, hzero]
      exact ⟨c, rfl, (filled_zero c.mem c.edi _).symm⟩
    rw [if_neg hzero]
    by_cases haligned : c.edi % 4 = 0
    · rw [if_pos haligned]
      exact memcpyAligned_eq (by omega) hedi hesi hd hs hover
    · have hecx := sub_one (a := c.ecx) (by omega) (by omega)
      obtain ⟨t, ht, hmem⟩ := ih
        (c := { c.loadAl.storeAl with
          edi := add c.edi 1, esi := add c.esi 1, ecx := sub c.ecx 1 })
        (by dsimp only; omega) (Nat.mod_lt _ (by decide)) (Nat.mod_lt _ (by decide))
        (by dsimp only; rw [add]; omega) (by dsimp only; rw [add]; omega)
        (by dsimp only; rw [add, add]; omega)
      refine ⟨t, by rw [if_neg haligned]; exact ht, hmem.trans ?_⟩
      dsimp only
      exact copied_storeAl (by omega) hd hs hover

/-! ## Every call -/

theorem memmove_eq {dest src : ℕ} (hd : dest + n ≤ 2 ^ 32) (hs : src + n ≤ 2 ^ 32) :
    ∃ t, (Call.memmove dest src n).run m c = some t ∧ t.mem = copied c.mem dest src n := by
  rw [Call.run]
  dsimp only
  by_cases hforward : src ≥ dest
  · rw [if_pos hforward]
    refine ⟨_, rfl, ?_⟩
    have hmem := repeatOp_movs
      (c := { c with edi := dest, esi := src, ecx := n, df := false }) (n := n) (k := 1) rfl
      (by decide) (by dsimp only; omega) (by dsimp only; omega) (Or.inl hforward)
    rw [Nat.one_mul] at hmem
    exact hmem
  · rw [if_neg hforward]
    refine ⟨_, rfl, ?_⟩
    exact repeatOp_movs_down rfl hd (by omega)
      (fun hn => by
        have hn : 0 < n := hn
        change sub (add dest n) 1 = dest + n - 1
        rw [sub, add]
        omega)
      (fun hn => by
        have hn : 0 < n := hn
        change sub (add src n) 1 = src + n - 1
        rw [sub, add]
        omega)

/-- A call terminates, and leaves the memory of its reference. -/
theorem Call.run_eq {a : Call} (ha : a.Proper) (hm : 2 ^ 32 + 4 < m) (c : Cpu) :
    ∃ t, a.run m c = some t ∧ t.mem = a.reference c.mem := by
  cases a with
  | memset s x n =>
    obtain ⟨hs, hsize⟩ := ha
    exact memsetTop_eq (c := { c with eax := replicated x, edi := s, ecx := n })
      (by dsimp only; omega) hs hsize fun j hj => lane_replicated x hj
  | memsetWord s x n =>
    obtain ⟨hs, hsize⟩ := ha
    exact ⟨_, rfl, repeatOp_stos (c := { c with eax := x, edi := s, ecx := n, df := false })
      rfl (by decide) hsize⟩
  | memsetDword s x n =>
    obtain ⟨hs, hsize⟩ := ha
    exact ⟨_, rfl, repeatOp_stos (c := { c with eax := x, edi := s, ecx := n, df := false })
      rfl (by decide) hsize⟩
  | memcpy dest src n =>
    obtain ⟨⟨hd, hdn⟩, ⟨hs, hsn⟩, hdisjoint⟩ := ha
    exact memcpyTop_eq (c := { c with edi := dest, esi := src, ecx := n })
      (by dsimp only; omega) hd hs hdn hsn (by dsimp only; omega)
  | memmove dest src n =>
    obtain ⟨⟨-, hd⟩, -, hs⟩ := ha
    exact memmove_eq hd hs

/-- For every sequence of calls, from every state of the registers, the direction flag
and the memory: all calls terminate, and the memory is that of the byte-wise routines. -/
theorem memory_routines (l : List Call) (hl : ∀ a ∈ l, a.Proper) (c : Cpu) :
    ∃ m t, Call.runAll m c l = some t ∧ t.mem = l.foldl Call.reference c.mem := by
  refine ⟨2 ^ 32 + 5, ?_⟩
  induction l generalizing c with
  | nil => exact ⟨c, rfl, rfl⟩
  | cons a l ih =>
    obtain ⟨t, ht, hmem⟩ := Call.run_eq (hl a List.mem_cons_self) (Nat.lt_succ_self _) c
    obtain ⟨u, hu, hmem'⟩ := ih (fun b hb => hl b (List.mem_cons_of_mem a hb)) t
    refine ⟨u, ?_, ?_⟩
    · rw [Call.runAll, List.foldlM_cons, ht]
      exact hu
    · rw [hmem', hmem, List.foldl_cons]

/-- Five calls, the first of which begins with the direction flag set. -/
theorem five_calls : ∃ m t,
    Call.runAll m ⟨fun a => a.toUInt8, 0, 0, 0, 0, 0, true⟩
      [.memset 0xFFFFFFF9 0x141 7, .memmove 0x1001 0x1000 7, .memcpy 0x2003 0x1000 9,
        .memsetWord 0x1001 0xABCD 3, .memsetDword 0x2002 0x12345678 2] = some t ∧
      t.mem = [Call.memset 0xFFFFFFF9 0x141 7, .memmove 0x1001 0x1000 7, .memcpy 0x2003 0x1000 9,
        .memsetWord 0x1001 0xABCD 3, .memsetDword 0x2002 0x12345678 2].foldl Call.reference
        fun a => a.toUInt8 :=
  memory_routines _ (by decide) _

end KudOS.StringOps
