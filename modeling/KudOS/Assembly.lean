import Mathlib.Data.List.Nodup
import Mathlib.Logic.Function.Basic

/-!
# Assembly with a stack and a call table

The part of 32-bit x86 that entry code uses: moves, pushes and pops of general and
segment registers, comparisons with conditional jumps, and one indirect call through
a table. `L` are the labels of the code and `F` the functions of the table.
-/

namespace KudOS.Assembly

inductive Reg where
  | eax | ebx | ecx | edx | esi | edi | ebp
  deriving DecidableEq, Repr

inductive Seg where
  | ds | es | fs
  deriving DecidableEq, Repr

inductive Slot where
  | reg (r : Reg)
  | seg (g : Seg)
  deriving DecidableEq, Repr

/-- The processor, with the stack from its top on. -/
structure Cpu where
  reg : Reg → BitVec 32
  seg : Seg → BitVec 16
  stack : List (BitVec 32)
  zf : Bool
  cf : Bool
  sf : Bool
  ovf : Bool
  intr : Bool

namespace Cpu

variable {s : Cpu}

def setReg (s : Cpu) (r : Reg) (v : BitVec 32) : Cpu :=
  { s with reg := Function.update s.reg r v }

def setSeg (s : Cpu) (g : Seg) (v : BitVec 16) : Cpu :=
  { s with seg := Function.update s.seg g v }

/-- A selector is extended by zeros when it is pushed and cut off when it is popped. -/
def get (s : Cpu) : Slot → BitVec 32
  | .reg r => s.reg r
  | .seg g => (s.seg g).setWidth 32

def set (s : Cpu) (v : BitVec 32) : Slot → Cpu
  | .reg r => s.setReg r v
  | .seg g => s.setSeg g (v.setWidth 16)

/-- The flags of the difference `a - b`. -/
def compare (s : Cpu) (a b : BitVec 32) : Cpu :=
  { s with
    zf := a - b == 0
    cf := a.ult b
    sf := (a - b).msb
    ovf := a.ssubOverflow b }

def above (s : Cpu) : Bool := !s.cf && !s.zf

def lessEqual (s : Cpu) : Bool := s.zf || s.sf != s.ovf

end Cpu

/-- Instructions that go on with the next one. -/
inductive Op where
  | push (x : Slot)
  | pop (x : Slot)
  | movImm (v : BitVec 32) (r : Reg)
  | movSeg (r : Reg) (g : Seg)
  | cmp (v : BitVec 32) (r : Reg)
  | sub (v : BitVec 32) (r : Reg)
  | cli
  deriving DecidableEq, Repr

/-- Popping from an empty stack is an error. -/
def Op.effect : Op → Cpu → Option Cpu
  | .push x, s => some { s with stack := s.get x :: s.stack }
  | .pop x, s =>
    match s.stack with
    | [] => none
    | v :: st => some (Cpu.set { s with stack := st } v x)
  | .movImm v r, s => some (s.setReg r v)
  | .movSeg r g, s => some (s.setSeg g ((s.reg r).setWidth 16))
  | .cmp v r, s => some (s.compare (s.reg r) v)
  | .sub v r, s => some ((s.compare (s.reg r) v).setReg r (s.reg r - v))
  | .cli, s => some { s with intr := false }

/-- One line of a listing. `callTable r` is `call *table(, r, 4)`. -/
inductive Line (L : Type) where
  | op (o : Op)
  | label (l : L)
  | ja (l : L)
  | jle (l : L)
  | jmp (l : L)
  | callTable (r : Reg)
  | iret
  deriving DecidableEq, Repr

/-- Where an indirect call leads: to a function of the table, or to whatever address the
memory around the table holds at this distance from it. -/
inductive Target (F : Type) where
  | entry (f : F)
  | stray (offset : BitVec 32)
  deriving DecidableEq, Repr

/-- A call that was made, with the stack on which the callee finds its arguments. -/
structure Call (F : Type) where
  target : Target F
  stack : List (BitVec 32)

variable {L F : Type} [DecidableEq L]

def codeAt (l : L) : List (Line L) → List (Line L)
  | [] => []
  | .label l' :: rest => if l' = l then rest else codeAt l rest
  | _ :: rest => codeAt l rest

/-- The address computation wraps around at 32 bits. -/
def fetch (table : List F) (i : BitVec 32) : Target F :=
  match table[(4 * i).toNat / 4]? with
  | some f => .entry f
  | none => .stray (4 * i)

/-- The run of a listing up to its `iret`, with the calls on the way. `callee` is what a
call that returns does to the processor. -/
def run (code : List (Line L)) (table : List F) (callee : Target F → Cpu → Cpu) :
    ℕ → List (Line L) → Cpu → Option (Cpu × List (Call F))
  | 0, _, _ => none
  | _ + 1, [], _ => none
  | n + 1, line :: rest, s =>
    match line with
    | .op o => (o.effect s).bind (run code table callee n rest)
    | .label _ => run code table callee n rest s
    | .ja l => run code table callee n (if s.above then codeAt l code else rest) s
    | .jle l => run code table callee n (if s.lessEqual then codeAt l code else rest) s
    | .jmp l => run code table callee n (codeAt l code) s
    | .callTable r =>
      let t := fetch table (s.reg r)
      (run code table callee n rest (callee t s)).map fun (s', calls) =>
        (s', ⟨t, s.stack⟩ :: calls)
    | .iret => some (s, [])

/-! ## Comparisons -/

theorem sub_eq_zero_iff (a b : BitVec 32) : a - b = 0 ↔ a = b := by bv_omega

theorem above_compare (s : Cpu) (a b : BitVec 32) :
    (s.compare a b).above = true ↔ b.toNat < a.toNat := by
  have hzero : a - b = 0 ↔ a.toNat = b.toNat := by rw [sub_eq_zero_iff, BitVec.toNat_inj]
  simp only [Cpu.above, Cpu.compare, Bool.and_eq_true, Bool.not_eq_true', beq_eq_false_iff_ne,
    BitVec.ult, decide_eq_false_iff_not, ne_eq, hzero]
  omega

theorem lessEqual_compare (s : Cpu) (a b : BitVec 32) :
    (s.compare a b).lessEqual = true ↔ a.toInt ≤ b.toInt := by
  have ha := BitVec.toInt_lt (x := a)
  have ha' := BitVec.le_toInt a
  have hb := BitVec.toInt_lt (x := b)
  have hb' := BitVec.le_toInt b
  have hzero : a - b = 0 ↔ a.toInt = b.toInt := by rw [sub_eq_zero_iff, BitVec.toInt_inj]
  have hsign : (a - b).msb = true ↔ (a.toInt - b.toInt).bmod (2 ^ 32) < 0 := by
    rw [BitVec.msb_eq_toInt, BitVec.toInt_sub, decide_eq_true_eq]
  have hover : a.ssubOverflow b = true ↔
      a.toInt - b.toInt ≥ 2 ^ 31 ∨ a.toInt - b.toInt < -2 ^ 31 := by
    rw [BitVec.ssubOverflow, Bool.or_eq_true, decide_eq_true_eq, decide_eq_true_eq]
  rw [Int.bmod] at hsign
  simp only [Cpu.lessEqual, Cpu.compare, Bool.or_eq_true, beq_iff_eq, bne_iff_ne, ne_eq, hzero]
  rw [Bool.eq_iff_iff, hsign, hover]
  omega

/-! ## Saved registers -/

namespace Cpu

theorem get_set_self (s u : Cpu) (x : Slot) : (s.set (u.get x) x).get x = u.get x := by
  cases x with
  | reg r => exact Function.update_self ..
  | seg g =>
    simp [get, set, setSeg]

theorem get_set_of_ne (s : Cpu) (v : BitVec 32) {x y : Slot} (h : y ≠ x) :
    (s.set v x).get y = s.get y := by
  cases x with
  | reg r =>
    cases y with
    | reg q =>
      have hq : q ≠ r := fun hq => h (by rw [hq])
      exact Function.update_of_ne hq ..
    | seg g => rfl
  | seg g =>
    cases y with
    | reg q => rfl
    | seg k =>
      have hk : k ≠ g := fun hk => h (by rw [hk])
      simp [get, set, setSeg, hk]

@[simp] theorem set_stack (s : Cpu) (v : BitVec 32) (x : Slot) : (s.set v x).stack = s.stack := by
  cases x <;> rfl

def restore (u : Cpu) (xs : List Slot) (s : Cpu) : Cpu :=
  xs.foldl (fun s x => s.set (u.get x) x) s

@[simp] theorem restore_stack (u : Cpu) (xs : List Slot) (s : Cpu) :
    (restore u xs s).stack = s.stack := by
  induction xs generalizing s with
  | nil => rfl
  | cons x xs ih =>
    rw [restore, List.foldl_cons, ← restore, ih, set_stack]

theorem restore_get_of_eq (u : Cpu) (xs : List Slot) {s : Cpu} {y : Slot}
    (h : s.get y = u.get y) : (restore u xs s).get y = u.get y := by
  induction xs generalizing s with
  | nil => exact h
  | cons x xs ih =>
    rw [restore, List.foldl_cons, ← restore]
    apply ih
    by_cases hy : y = x
    · rw [hy]
      exact get_set_self s u x
    · rw [get_set_of_ne s _ hy, h]

theorem restore_get_of_mem (u : Cpu) {xs : List Slot} (s : Cpu) {y : Slot} (h : y ∈ xs) :
    (restore u xs s).get y = u.get y := by
  induction xs generalizing s with
  | nil => exact absurd h List.not_mem_nil
  | cons x xs ih =>
    rw [restore, List.foldl_cons, ← restore]
    rcases List.mem_cons.mp h with rfl | h
    · exact restore_get_of_eq u xs (get_set_self s u _)
    · exact ih _ h

theorem restore_get_of_not_mem (u : Cpu) {xs : List Slot} (s : Cpu) {y : Slot} (h : y ∉ xs) :
    (restore u xs s).get y = s.get y := by
  induction xs generalizing s with
  | nil => rfl
  | cons x xs ih =>
    rw [List.mem_cons, not_or] at h
    rw [restore, List.foldl_cons, ← restore, ih _ h.2, get_set_of_ne _ _ h.1]

end Cpu

section

variable (code : List (Line L)) (table : List F) (callee : Target F → Cpu → Cpu)

/-- More steps do not change a run that has ended. -/
theorem run_succ {n : ℕ} {rest : List (Line L)} {s : Cpu} {r : Cpu × List (Call F)}
    (h : run code table callee n rest s = some r) :
    run code table callee (n + 1) rest s = some r := by
  induction n generalizing rest s r with
  | zero => cases h
  | succ n ih =>
    cases rest with
    | nil => cases h
    | cons line rest =>
      cases line with
      | op o =>
        obtain ⟨s', hs', hrun⟩ := Option.bind_eq_some_iff.mp h
        exact Option.bind_eq_some_iff.mpr ⟨s', hs', ih hrun⟩
      | label l => exact ih (s := s) h
      | ja l => exact ih (s := s) h
      | jle l => exact ih (s := s) h
      | jmp l => exact ih (s := s) h
      | callTable r =>
        obtain ⟨p, hp, hrun⟩ := Option.map_eq_some_iff.mp h
        exact Option.map_eq_some_iff.mpr ⟨p, ih hp, hrun⟩
      | iret => exact h

theorem run_mono {n : ℕ} (k : ℕ) {rest : List (Line L)} {s : Cpu} {r : Cpu × List (Call F)}
    (h : run code table callee n rest s = some r) :
    run code table callee (n + k) rest s = some r := by
  induction k with
  | zero => exact h
  | succ k ih => exact run_succ code table callee ih

theorem run_unique {n k : ℕ} {rest : List (Line L)} {s : Cpu} {r r' : Cpu × List (Call F)}
    (h : run code table callee n rest s = some r) (h' : run code table callee k rest s = some r') :
    r = r' := by
  have hn := run_mono code table callee k h
  have hk := run_mono code table callee n h'
  rw [Nat.add_comm, hn] at hk
  exact Option.some.inj hk

theorem run_pushes (n : ℕ) (xs : List Slot) (rest : List (Line L)) (s : Cpu) :
    run code table callee (n + xs.length) (xs.map (fun x => .op (.push x)) ++ rest) s =
      run code table callee n rest { s with stack := (xs.map s.get).reverse ++ s.stack } := by
  induction xs generalizing s with
  | nil => rfl
  | cons x xs ih =>
    have hget : Cpu.get { s with stack := s.get x :: s.stack } = s.get := by
      funext y
      cases y <;> rfl
    change run code table callee (n + xs.length) (xs.map (fun x => .op (.push x)) ++ rest)
      { s with stack := s.get x :: s.stack } = _
    rw [ih, hget, List.map_cons, List.reverse_cons, List.append_assoc]
    rfl

/-- A block of pops finds the values that were pushed in the opposite order. -/
theorem run_pops (n : ℕ) (xs : List Slot) (rest : List (Line L)) (u s : Cpu)
    (st : List (BitVec 32)) (h : s.stack = xs.map u.get ++ st) :
    run code table callee (n + xs.length) (xs.map (fun x => .op (.pop x)) ++ rest) s =
      run code table callee n rest (Cpu.restore u xs { s with stack := st }) := by
  induction xs generalizing s with
  | nil =>
    have hs : { s with stack := st } = s := by
      rw [List.map_nil, List.nil_append] at h
      rw [← h]
    rw [Cpu.restore, List.foldl_nil, hs]
    rfl
  | cons x xs ih =>
    have hpop : Op.effect (.pop x) s =
        some (Cpu.set { s with stack := xs.map u.get ++ st } (u.get x) x) := by
      rw [Op.effect, h]
      rfl
    have hset : { Cpu.set { s with stack := xs.map u.get ++ st } (u.get x) x with stack := st } =
        Cpu.set { s with stack := st } (u.get x) x := by
      cases x <;> rfl
    change (Op.effect (.pop x) s).bind (run code table callee (n + xs.length)
      (xs.map (fun x => .op (.pop x)) ++ rest)) = _
    rw [hpop, Option.bind_some, ih _ (by rw [Cpu.set_stack]), hset, Cpu.restore, Cpu.restore,
      List.foldl_cons]

end

end KudOS.Assembly
