import Mathlib.Algebra.Order.Ring.Int
import Mathlib.Tactic.Common

/-!
# Protected mode

How a processor of 32-bit x86 reads its descriptors, where an interrupt or an `int`
instruction takes it, and which physical address user code reaches. Task gates and 16-bit
gates are not modelled: they count as invalid. Addresses are translated without address
extensions: a directory of 1024 entries, each of which is absent, maps a page of 4 MB, or
refers to a table of 1024 entries that map pages of 4 KB.
-/

namespace KudOS.Protected

/-! ## Descriptors -/

/-- A gate, decoded. `kind` is the system bit together with the type. -/
structure Gate where
  offset : BitVec 32
  selector : BitVec 16
  kind : BitVec 5
  dpl : BitVec 2
  present : Bool
  deriving DecidableEq

/-- A segment, decoded. `kind` is the system bit together with the type. -/
structure Segment where
  base : BitVec 32
  limit : BitVec 20
  kind : BitVec 5
  dpl : BitVec 2
  present : Bool
  granular : Bool
  deriving DecidableEq

def decodeGate (w : BitVec 64) : Gate where
  offset := w.extractLsb' 48 16 ++ w.extractLsb' 0 16
  selector := w.extractLsb' 16 16
  kind := w.extractLsb' 40 5
  dpl := w.extractLsb' 45 2
  present := w.getLsbD 47

def decodeSegment (w : BitVec 64) : Segment where
  base := w.extractLsb' 56 8 ++ w.extractLsb' 32 8 ++ w.extractLsb' 16 16
  limit := w.extractLsb' 48 4 ++ w.extractLsb' 0 16
  kind := w.extractLsb' 40 5
  dpl := w.extractLsb' 45 2
  present := w.getLsbD 47
  granular := w.getLsbD 55

def interruptGate : BitVec 5 := 0b01110
def trapGate : BitVec 5 := 0b01111

/-- A code segment that may be entered from the privilege level `cpl`. -/
def Segment.Enters (s : Segment) (cpl : BitVec 2) : Prop :=
  s.kind.extractLsb' 3 2 = 0b11#2 ∧ s.dpl ≤ cpl

instance (s : Segment) (cpl : BitVec 2) : Decidable (s.Enters cpl) :=
  inferInstanceAs (Decidable (_ ∧ _))

/-! ## The transfer of control -/

inductive Outcome where
  | enter (address : BitVec 32) (clearsFlag : Bool)
  | fault (exception : ℕ)
  deriving DecidableEq

/-- Interrupt `v` at the privilege level `cpl`. Only an `int` instruction is checked
against the privilege level of the gate. -/
def interrupt (idt gdt : ℕ → BitVec 64) (cpl : BitVec 2) (software : Bool) (v : ℕ) : Outcome :=
  let g := decodeGate (idt v)
  let s := decodeSegment (gdt (g.selector.toNat / 8))
  if g.kind ≠ interruptGate ∧ g.kind ≠ trapGate then .fault 13
  else if software = true ∧ g.dpl < cpl then .fault 13
  else if g.present = false then .fault 11
  else if ¬ s.Enters cpl then .fault 13
  else if s.present = false then .fault 11
  else .enter (s.base + g.offset) (g.kind = interruptGate)

variable {idt gdt : ℕ → BitVec 64} {cpl : BitVec 2} {software : Bool} {v : ℕ} {g : Gate}
  {s : Segment}

/-- A present gate that the interrupt may use. -/
theorem interrupt_enter (hg : decodeGate (idt v) = g)
    (hs : decodeSegment (gdt (g.selector.toNat / 8)) = s)
    (hkind : g.kind = interruptGate ∨ g.kind = trapGate) (hdpl : software = true → cpl ≤ g.dpl)
    (hpresent : g.present = true) (henter : s.Enters cpl) (hseg : s.present = true) :
    interrupt idt gdt cpl software v = .enter (s.base + g.offset) (g.kind = interruptGate) := by
  unfold interrupt
  simp only [hg, hs, hpresent, hseg]
  rw [if_neg (fun h => hkind.elim h.1 h.2), if_neg fun h => BitVec.not_lt.mpr (hdpl h.1) h.2,
    if_neg (by decide), if_neg (not_not.mpr henter),
    if_neg (by decide)]

end KudOS.Protected

/-! ## Two-level address translation -/

namespace KudOS.TwoLevel

/-- The attribute bits of directory and table entries. -/
def Present (e : ℕ) : Prop := e % 2 = 1
def User (e : ℕ) : Prop := e / 4 % 2 = 1
def Large (e : ℕ) : Prop := e / 128 % 2 = 1

instance (e : ℕ) : Decidable (Present e) := inferInstanceAs (Decidable (_ = _))
instance (e : ℕ) : Decidable (User e) := inferInstanceAs (Decidable (_ = _))
instance (e : ℕ) : Decidable (Large e) := inferInstanceAs (Decidable (_ = _))

/-- The directory index, the table index and the address bits of an entry. -/
def dirIndex (v : ℕ) : ℕ := v / 2 ^ 22
def tableIndex (v : ℕ) : ℕ := v / 2 ^ 12 % 2 ^ 10
def tableBase (e : ℕ) : ℕ := e / 2 ^ 12 * 2 ^ 12

/-- The physical address that user code reaches at `v`, if it may access `v` at all.
`tableAt a k` is word `k` of the table at the physical address `a`. -/
def translate (dir : ℕ → ℕ) (tableAt : ℕ → ℕ → ℕ) (v : ℕ) : Option ℕ :=
  let pde := dir (dirIndex v)
  if Present pde ∧ User pde then
    if Large pde then some (pde / 2 ^ 22 * 2 ^ 22 + v % 2 ^ 22)
    else
      let pte := tableAt (tableBase pde) (tableIndex v)
      if Present pte ∧ User pte then some (tableBase pte + v % 2 ^ 12) else none
  else none

variable {dir : ℕ → ℕ} {tableAt : ℕ → ℕ → ℕ} {v e : ℕ}

theorem translate_absent (he : dir (dirIndex v) = e) (h : ¬ (Present e ∧ User e)) :
    translate dir tableAt v = none := by
  rw [translate, he, if_neg h]

theorem translate_large (he : dir (dirIndex v) = e) (h : Present e ∧ User e) (hl : Large e) :
    translate dir tableAt v = some (e / 2 ^ 22 * 2 ^ 22 + v % 2 ^ 22) := by
  rw [translate, he, if_pos h, if_pos hl]

theorem translate_table (he : dir (dirIndex v) = e) (h : Present e ∧ User e) (hl : ¬ Large e)
    {base pte : ℕ} (hbase : tableBase e = base) (hpte : tableAt base (tableIndex v) = pte) :
    translate dir tableAt v =
      if Present pte ∧ User pte then some (tableBase pte + v % 2 ^ 12) else none := by
  rw [translate, he, if_pos h, if_neg hl, hbase, hpte]

/-! ## Entries made of an aligned address and attribute bits -/

theorem or_eq_add {a f : ℕ} (ha : a % 2 ^ 12 = 0) (hf : f < 2 ^ 12) : a ||| f = a + f := by
  obtain ⟨q, rfl⟩ := Nat.dvd_of_mod_eq_zero ha
  exact (Nat.two_pow_add_eq_or_of_lt hf q).symm

/-- The entry refers to the table at `a` and is open to user code. -/
theorem aligned_entry {a : ℕ} (ha : a % 2 ^ 12 = 0) :
    Present (a ||| 7) ∧ User (a ||| 7) ∧ ¬ Large (a ||| 7) ∧ tableBase (a ||| 7) = a := by
  rw [or_eq_add ha (by decide), Present, User, Large, tableBase]
  omega

end KudOS.TwoLevel
