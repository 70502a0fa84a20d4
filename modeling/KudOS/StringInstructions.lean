import KudOS.CountedLoop
import Mathlib.Algebra.Order.Ring.Int
import Mathlib.Tactic.Common

/-!
# String instructions

`stos` and `movs` of 32-bit x86 with their `rep` forms, over a memory of bytes. The
effect of a loop is described by one function: a block of memory is filled with given
bytes. Addresses wrap around at 2^32; the lemmas are about blocks that do not.
-/

namespace KudOS.StringOps

/-- The registers that the instructions use, and the memory. -/
structure Cpu where
  mem : ℕ → UInt8
  eax : ℕ
  ecx : ℕ
  edx : ℕ
  esi : ℕ
  edi : ℕ
  df : Bool

def lane (w j : ℕ) : UInt8 := (w / 256 ^ j).toUInt8

/-- Sum and difference of 32-bit words. -/
def add (a b : ℕ) : ℕ := (a + b) % 2 ^ 32
def sub (a b : ℕ) : ℕ := (a + 2 ^ 32 - b) % 2 ^ 32

/-- `n` bytes stored from address `p` on. -/
def storeBytes (mem : ℕ → UInt8) (p n : ℕ) (f : ℕ → UInt8) : ℕ → UInt8 :=
  forLoop n (fun j m => Function.update m (add p j) (f j)) mem

namespace Cpu

/-- A pointer after an element of `k` bytes. -/
def next (s : Cpu) (k p : ℕ) : ℕ := if s.df then sub p k else add p k

/-- `stosb`, `stosw` and `stosl` for `k` = 1, 2 and 4. -/
def stos (k : ℕ) (s : Cpu) : Cpu :=
  { s with
    mem := storeBytes s.mem s.edi k (lane s.eax)
    edi := s.next k s.edi }

/-- `movsb`, `movsw` and `movsl`. -/
def movs (k : ℕ) (s : Cpu) : Cpu :=
  { s with
    mem := storeBytes s.mem s.edi k fun j => s.mem (add s.esi j)
    esi := s.next k s.esi
    edi := s.next k s.edi }

/-- `op` for each count of `ecx` down to zero. -/
def repeatOp (op : Cpu → Cpu) : ℕ → Cpu → Cpu
  | 0, s => s
  | n + 1, s => repeatOp op n { op s with ecx := n }

def rep (op : Cpu → Cpu) (s : Cpu) : Cpu := repeatOp op s.ecx s

end Cpu

/-! ## Filled and copied blocks -/

/-- The memory with the bytes `f 0`, `f 1`, ... in the `n` bytes from `p` on. -/
def filled (mem : ℕ → UInt8) (p n : ℕ) (f : ℕ → UInt8) : ℕ → UInt8 :=
  fun a => if p ≤ a ∧ a < p + n then f (a - p) else mem a

/-- The memory with the block of `n` bytes from `s` on copied to `d`. -/
def copied (mem : ℕ → UInt8) (d s n : ℕ) : ℕ → UInt8 := filled mem d n fun j => mem (s + j)

variable {mem : ℕ → UInt8} {f g : ℕ → UInt8} {p d s n k i : ℕ} {c : Cpu}

theorem add_eq (h : p + k < 2 ^ 32) : add p k = p + k := Nat.mod_eq_of_lt h

theorem filled_zero (mem : ℕ → UInt8) (p : ℕ) (f : ℕ → UInt8) : filled mem p 0 f = mem := by
  funext a
  rw [filled, if_neg (by omega)]

theorem filled_of_not_mem {a : ℕ} (h : ¬ (p ≤ a ∧ a < p + n)) : filled mem p n f a = mem a :=
  if_neg h

theorem filled_congr (h : ∀ j < n, f j = g j) : filled mem p n f = filled mem p n g := by
  funext a
  rw [filled, filled]
  split
  · exact h (a - p) (by omega)
  · rfl

theorem filled_one (mem : ℕ → UInt8) (p : ℕ) (f : ℕ → UInt8) :
    filled mem p 1 f = Function.update mem p (f 0) := by
  funext a
  by_cases ha : a = p
  · subst ha
    rw [filled, if_pos (by omega), Function.update_self, Nat.sub_self]
  · rw [filled_of_not_mem (by omega), Function.update_of_ne ha]

theorem filled_filled (mem : ℕ → UInt8) (p n k : ℕ) (f : ℕ → UInt8) :
    filled (filled mem p n f) (p + n) k (fun j => f (n + j)) = filled mem p (n + k) f := by
  funext a
  by_cases hsecond : p + n ≤ a ∧ a < p + n + k
  · rw [filled, if_pos hsecond, filled, if_pos (by omega)]
    congr 1
    omega
  · rw [filled_of_not_mem hsecond]
    by_cases hfirst : p ≤ a ∧ a < p + n
    · rw [filled, if_pos hfirst, filled, if_pos (by omega)]
    · rw [filled_of_not_mem hfirst, filled_of_not_mem (by omega)]

theorem storeBytes_eq (h : p + n ≤ 2 ^ 32) : storeBytes mem p n f = filled mem p n f := by
  have hloop : storeBytes mem p n f =
      forLoop n (fun j m => Function.update m (p + j) (f j)) mem := by
    refine forLoop_induct
      (fun i m => m = forLoop i (fun j m => Function.update m (p + j) (f j)) mem) _ rfl ?_
    intro i hi m hm
    rw [hm, add_eq (by omega), forLoop_succ]
  rw [hloop, forLoop_store]
  rfl

/-- Copying forward may go on after `n` bytes, unless it has overwritten what is left to
be read. -/
theorem copied_copied (h : d ≤ s ∨ s + n + k ≤ d) :
    copied (copied mem d s n) (d + n) (s + n) k = copied mem d s (n + k) := by
  have hread : ∀ j < k, copied mem d s n (s + n + j) = mem (s + (n + j)) := by
    intro j hj
    rw [copied, filled_of_not_mem (by omega), Nat.add_assoc]
  rw [copied, filled_congr hread]
  exact filled_filled mem d n k fun j => mem (s + j)

/-- The second block may begin where the address space ends, if it is empty. -/
theorem filled_add (h : p + (n + k) ≤ 2 ^ 32) :
    filled (filled mem p n f) (add p n) k (fun j => f (n + j)) = filled mem p (n + k) f := by
  rcases Nat.eq_zero_or_pos k with rfl | hk
  · rw [filled_zero, Nat.add_zero]
  · rw [add_eq (by omega), filled_filled]

theorem copied_add (hd : d + (n + k) ≤ 2 ^ 32) (hs : s + (n + k) ≤ 2 ^ 32)
    (h : d ≤ s ∨ s + (n + k) ≤ d) :
    copied (copied mem d s n) (add d n) (add s n) k = copied mem d s (n + k) := by
  rcases Nat.eq_zero_or_pos k with rfl | hk
  · rw [copied, filled_zero, Nat.add_zero]
  · rw [add_eq (by omega), add_eq (by omega), copied_copied (by omega)]

/-! ## One element, upwards -/

namespace Cpu

@[simp] theorem stos_mem (k : ℕ) (c : Cpu) :
    (stos k c).mem = storeBytes c.mem c.edi k (lane c.eax) := rfl

@[simp] theorem stos_edi (k : ℕ) (c : Cpu) : (stos k c).edi = c.next k c.edi := rfl

@[simp] theorem movs_mem (k : ℕ) (c : Cpu) :
    (movs k c).mem = storeBytes c.mem c.edi k fun j => c.mem (add c.esi j) := rfl

@[simp] theorem movs_edi (k : ℕ) (c : Cpu) : (movs k c).edi = c.next k c.edi := rfl

@[simp] theorem movs_esi (k : ℕ) (c : Cpu) : (movs k c).esi = c.next k c.esi := rfl

theorem next_up (h : c.df = false) (k p : ℕ) : c.next k p = add p k := by
  rw [next, if_neg (by rw [h]; exact Bool.false_ne_true)]

theorem next_down (h : c.df = true) (k p : ℕ) : c.next k p = sub p k := by
  rw [next, if_pos h]

/-- `rep stos` upwards fills the memory with the bytes of the register, one element
behind the other. -/
theorem repeatOp_stos (hdf : c.df = false) (hk : 0 < k) (hsize : c.edi + k * n ≤ 2 ^ 32) :
    (repeatOp (stos k) n c).mem = filled c.mem c.edi (k * n) fun j => lane c.eax (j % k) := by
  induction n generalizing c with
  | zero => exact (filled_zero c.mem c.edi _).symm
  | succ n ih =>
    rw [Nat.mul_succ] at hsize
    have hone : (stos k c).mem = filled c.mem c.edi k fun j => lane c.eax (j % k) := by
      rw [stos_mem, storeBytes_eq (by omega)]
      exact filled_congr fun j hj => by rw [Nat.mod_eq_of_lt hj]
    have hrest := ih (c := { stos k c with ecx := n }) hdf (by
      change (stos k c).edi + k * n ≤ 2 ^ 32
      rw [stos_edi, next_up hdf, add]
      rcases Nat.eq_zero_or_pos n with rfl | hn
      · omega
      · have hpos : 0 < k * n := Nat.mul_pos hk hn
        omega)
    have hshift : (fun j => lane c.eax (j % k)) = fun j => lane c.eax ((k + j) % k) := by
      funext j
      rw [Nat.add_mod_left]
    rw [repeatOp, hrest]
    change filled (stos k c).mem (stos k c).edi (k * n) (fun j => lane c.eax (j % k)) = _
    rw [hone, stos_edi, next_up hdf, Nat.mul_succ, Nat.add_comm (k * n) k,
      ← filled_add (by omega), ← hshift]

/-- `rep movs` upwards copies the block, unless it overwrites what is left to be read. -/
theorem repeatOp_movs (hdf : c.df = false) (hk : 0 < k) (hd : c.edi + k * n ≤ 2 ^ 32)
    (hs : c.esi + k * n ≤ 2 ^ 32) (hover : c.edi ≤ c.esi ∨ c.esi + k * n ≤ c.edi) :
    (repeatOp (movs k) n c).mem = copied c.mem c.edi c.esi (k * n) := by
  induction n generalizing c with
  | zero => exact (filled_zero c.mem c.edi _).symm
  | succ n ih =>
    rw [Nat.mul_succ] at hd hs hover
    have hone : (movs k c).mem = copied c.mem c.edi c.esi k := by
      rw [movs_mem, storeBytes_eq (by omega)]
      refine filled_congr fun j hj => ?_
      rw [add_eq (by omega)]
    rw [repeatOp]
    rcases Nat.eq_zero_or_pos n with rfl | hn
    · rw [repeatOp, Nat.zero_add, Nat.mul_one]
      exact hone
    · have hpos : 0 < k * n := Nat.mul_pos hk hn
      have hedi : (movs k c).edi = c.edi + k := by
        rw [movs_edi, next_up hdf, add_eq (by omega)]
      have hesi : (movs k c).esi = c.esi + k := by
        rw [movs_esi, next_up hdf, add_eq (by omega)]
      have hrest := ih (c := { movs k c with ecx := n }) hdf
        (by change (movs k c).edi + k * n ≤ 2 ^ 32; omega)
        (by change (movs k c).esi + k * n ≤ 2 ^ 32; omega)
        (by
          change (movs k c).edi ≤ (movs k c).esi ∨ (movs k c).esi + k * n ≤ (movs k c).edi
          omega)
      rw [hrest]
      change copied (movs k c).mem (movs k c).edi (movs k c).esi (k * n) = _
      rw [hone, hedi, hesi, copied_copied (by omega), Nat.mul_succ, Nat.add_comm k]

/-- What the operation does not change, `rep` does not change. -/
theorem repeatOp_frame {β : Type} (op : Cpu → Cpu) (π : Cpu → β)
    (hop : ∀ c, π (op c) = π c) (hecx : ∀ c n, π { c with ecx := n } = π c) (n : ℕ) (c : Cpu) :
    π (repeatOp op n c) = π c := by
  induction n generalizing c with
  | zero => rfl
  | succ n ih => rw [repeatOp, ih, hecx, hop]

/-- Behind `rep` upwards a pointer is behind its block. -/
theorem repeatOp_pointer (op : Cpu → Cpu) (π : Cpu → ℕ)
    (hop : ∀ c : Cpu, c.df = false → π (op c) = add (π c) k ∧ (op c).df = false)
    (hecx : ∀ c n, π { c with ecx := n } = π c) (hdf : c.df = false) (hc : π c < 2 ^ 32) :
    π (repeatOp op n c) = add (π c) (k * n) := by
  induction n generalizing c with
  | zero => exact (Nat.mod_eq_of_lt hc).symm
  | succ n ih =>
    obtain ⟨hstep, hdf'⟩ := hop c hdf
    have hlt : π { op c with ecx := n } < 2 ^ 32 := by
      rw [hecx, hstep]
      exact Nat.mod_lt _ (by decide)
    have hrest := ih (c := { op c with ecx := n }) hdf' hlt
    rw [repeatOp, hrest, hecx, hstep, add, add, add, Nat.mod_add_mod, Nat.mul_succ]
    congr 1
    omega

/-- `rep movsb` downwards, from the ends of the blocks: a block may be copied to where it
begins or to any place behind. -/
theorem repeatOp_movs_down (hdf : c.df = true) {d s : ℕ} (hd : d + n ≤ 2 ^ 32) (hsd : s ≤ d)
    (hedi : 0 < n → c.edi = d + n - 1) (hesi : 0 < n → c.esi = s + n - 1) :
    (repeatOp (movs 1) n c).mem = copied c.mem d s n := by
  induction n generalizing c with
  | zero => exact (filled_zero c.mem d _).symm
  | succ n ih =>
    have hedi := hedi (Nat.succ_pos n)
    have hesi := hesi (Nat.succ_pos n)
    have hone : (movs 1 c).mem = filled c.mem (d + n) 1 fun j => c.mem (s + n + j) := by
      have hp : c.edi = d + n := by omega
      have hq : c.esi = s + n := by omega
      rw [movs_mem, storeBytes_eq (by omega), hp, hq]
      refine filled_congr fun j hj => ?_
      rw [add_eq (by omega)]
    have hrest := ih (c := { movs 1 c with ecx := n }) hdf (by omega)
      (fun hn => by
        change (movs 1 c).edi = d + n - 1
        rw [movs_edi, next_down hdf, hedi, sub]
        omega)
      (fun hn => by
        change (movs 1 c).esi = s + n - 1
        rw [movs_esi, next_down hdf, hesi, sub]
        omega)
    rw [repeatOp, hrest]
    change copied (movs 1 c).mem d s n = _
    have hread : ∀ j < n, (movs 1 c).mem (s + j) = c.mem (s + j) := by
      intro j hj
      rw [hone, filled_of_not_mem (by omega)]
    rw [copied, filled_congr hread, hone]
    funext a
    by_cases hblock : d ≤ a ∧ a < d + n
    · rw [filled, if_pos hblock, copied, filled, if_pos (by omega)]
    rw [filled_of_not_mem hblock]
    by_cases hlast : a = d + n
    · subst hlast
      rw [filled, if_pos (by omega), copied, filled, if_pos (by omega)]
      congr 1
      omega
    · rw [filled_of_not_mem (by omega), copied, filled_of_not_mem (by omega)]

end Cpu
end KudOS.StringOps
