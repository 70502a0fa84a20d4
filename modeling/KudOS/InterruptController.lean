import Mathlib.Algebra.Order.Ring.Int
import Mathlib.Tactic.Common

/-!
# Two cascaded interrupt controllers

The 8259A with fixed priorities, and a pair of them as on the PC: the output of the slave
is wired to input 2 of the master. A chip is what its registers hold; the latched requests
stand beside it. The rotating priorities and the commands that select what a read of the
command port returns leave the chip as it is. A request that is gone before its acknowledge
cycle, which the chip answers with its last vector, is left out.
-/

namespace KudOS.Pic

abbrev Byte := BitVec 8

/-- The word that the data port expects next. -/
inductive Stage where
  | ready
  | base
  | cascade
  | mode
  deriving DecidableEq, Repr

/-- The registers of a controller. `service i` is the in-service bit of input `i`. -/
structure Chip where
  service : Fin 8 → Bool
  mask : Byte
  start : Byte
  base : Byte
  cascade : Byte
  mode : Byte
  stage : Stage

namespace Chip

def Masked (c : Chip) (i : Fin 8) : Prop := c.mask.getLsbD i = true

instance (c : Chip) (i : Fin 8) : Decidable (c.Masked i) := inferInstanceAs (Decidable (_ = _))

/-- The input with the highest priority among those in service. -/
def foremost (c : Chip) : Option (Fin 8) := (List.finRange 8).find? fun i => c.service i

/-- The in-service bit of `i` is reset. -/
def endOf (c : Chip) (i : Fin 8) : Chip := { c with service := Function.update c.service i false }

/-- A write to the command port: the first initialisation word, or an end of interrupt. -/
def writeCommand (c : Chip) (v : Byte) : Chip :=
  if v.getLsbD 4 then
    { c with service := fun _ => false, mask := 0, start := v, mode := 0, stage := .base }
  else if v.getLsbD 3 then c
  else if v.extractLsb' 5 3 = 0b011#3 then c.endOf (v.extractLsb' 0 3).toFin
  else if v.extractLsb' 5 3 = 0b001#3 then c.foremost.elim c c.endOf
  else c

/-- The stage behind the words for the base and for the cascade. -/
def afterCascade (c : Chip) : Stage := if c.start.getLsbD 0 then .mode else .ready
def afterBase (c : Chip) : Stage := if c.start.getLsbD 1 then c.afterCascade else .cascade

/-- A write to the data port: the remaining initialisation words, then the mask. -/
def writeData (c : Chip) (v : Byte) : Chip :=
  match c.stage with
  | .ready => { c with mask := v }
  | .base => { c with base := v &&& 0xF8, stage := c.afterBase }
  | .cascade => { c with cascade := v, stage := c.afterCascade }
  | .mode => { c with mode := v, stage := .ready }

/-- The input `i` may interrupt: it is not masked, and nothing of its priority or above is
in service. -/
def Open (c : Chip) (i : Fin 8) : Prop := ¬ c.Masked i ∧ ∀ j ≤ i, c.service j = false

instance (c : Chip) (i : Fin 8) : Decidable (c.Open i) := inferInstanceAs (Decidable (_ ∧ _))

/-- The request that the chip passes on. -/
def select (c : Chip) (request : Fin 8 → Bool) : Option (Fin 8) :=
  (List.finRange 8).find? fun i => request i && decide (c.Open i)

/-- The acknowledge cycle; with automatic ends of interrupt nothing goes into service. -/
def accept (c : Chip) (i : Fin 8) : Chip :=
  if c.mode.getLsbD 1 then c else { c with service := Function.update c.service i true }

def vector (c : Chip) (i : Fin 8) : Byte := c.base ||| BitVec.ofNat 8 i

end Chip

/-- The inputs of the master that the timer, the keyboard and the slave are wired to, and the
input of the slave that the clock is wired to. -/
abbrev timerInput : Fin 8 := 0
abbrev keyboardInput : Fin 8 := 1
abbrev slaveInput : Fin 8 := 2
abbrev clockInput : Fin 8 := 0

/-- An input of the pair. -/
inductive Pin where
  | master (i : Fin 8)
  | slave (i : Fin 8)
  deriving DecidableEq, Repr

/-- Lines with smaller numbers go first. The lines of the slave share a place. -/
def Pin.rank : Pin → ℕ
  | .master i => 8 * i
  | .slave i => 8 * slaveInput + i

/-- The latched requests of both chips. -/
structure Requests where
  master : Fin 8 → Bool
  slave : Fin 8 → Bool

structure Pair where
  master : Chip
  slave : Chip

namespace Pair

/-- Both chips were told how they are wired. -/
def Cascaded (p : Pair) : Prop := p.master.cascade.getLsbD 2 = true ∧ p.slave.cascade = 2

instance (p : Pair) : Decidable p.Cascaded := inferInstanceAs (Decidable (_ ∧ _))

/-- What the master sees at its inputs. -/
def inputs (p : Pair) (r : Requests) : Fin 8 → Bool :=
  Function.update r.master slaveInput (p.slave.select r.slave).isSome

/-- The request that the pair passes on to the processor. -/
def select (p : Pair) (r : Requests) : Option Pin :=
  (p.master.select (p.inputs r)).bind fun i =>
    if i = slaveInput ∧ p.Cascaded then (p.slave.select r.slave).map .slave else some (.master i)

def vector (p : Pair) : Pin → Byte
  | .master i => p.master.vector i
  | .slave i => p.slave.vector i

def accept (p : Pair) : Pin → Pair
  | .master i => { p with master := p.master.accept i }
  | .slave i => ⟨p.master.accept slaveInput, p.slave.accept i⟩

/-- Nothing is in service. -/
def Idle (p : Pair) : Prop := ∀ i, p.master.service i = false ∧ p.slave.service i = false

end Pair

namespace Requests

def raise (r : Requests) : Pin → Requests
  | .master i => { r with master := Function.update r.master i true }
  | .slave i => { r with slave := Function.update r.slave i true }

def lower (r : Requests) : Pin → Requests
  | .master i => { r with master := Function.update r.master i false }
  | .slave i => { r with slave := Function.update r.slave i false }

def pending (r : Requests) : Pin → Bool
  | .master i => r.master i
  | .slave i => r.slave i

end Requests

/-! ## What is selected -/

namespace Chip

variable {c : Chip} {r : Fin 8 → Bool} {i : Fin 8}

theorem request_of_select (h : c.select r = some i) : r i = true ∧ c.Open i := by
  have hi := List.find?_some h
  simpa using hi

/-- A request that may interrupt is passed on, or one of a higher priority is. -/
theorem select_le (hr : r i = true) (hi : c.Open i) : ∃ j ≤ i, c.select r = some j := by
  have hsome : (c.select r).isSome := by
    rw [select, List.find?_isSome]
    exact ⟨i, List.mem_finRange i, by simp [hr, hi]⟩
  obtain ⟨j, hj⟩ := Option.isSome_iff_exists.mp hsome
  refine ⟨j, ?_, hj⟩
  obtain ⟨-, n, hn, hnj, hfirst⟩ := List.find?_eq_some_iff_getElem.mp hj
  rw [List.getElem_finRange] at hnj
  by_contra hlt
  have hin : (i : ℕ) < n := by
    rw [← hnj] at hlt
    exact Nat.lt_of_not_le hlt
  have hno := hfirst i hin
  rw [List.getElem_finRange] at hno
  simp [hr, hi] at hno

theorem open_of_idle (hi : ¬ c.Masked i) (h : ∀ j, c.service j = false) : c.Open i :=
  ⟨hi, fun j _ => h j⟩

@[simp] theorem endOf_self (c : Chip) (i : Fin 8) : (c.endOf i).service i = false := by
  simp [endOf]

theorem endOf_of_ne {j : Fin 8} (h : j ≠ i) : (c.endOf i).service j = c.service j := by
  simp [endOf, h]

/-- An end of interrupt for an input that is not in service changes nothing. -/
theorem endOf_eq_self (h : c.service i = false) : c.endOf i = c := by
  rw [endOf, ← h, Function.update_eq_self]

/-- The end of interrupt undoes the acknowledge cycle. -/
theorem endOf_accept (hmode : c.mode.getLsbD 1 = false) (h : c.service i = false) :
    (c.accept i).endOf i = c := by
  rw [accept, if_neg (ne_true_of_eq_false hmode), endOf, Function.update_idem, ← h,
    Function.update_eq_self]

@[simp] theorem accept_mask (c : Chip) (i : Fin 8) : (c.accept i).mask = c.mask := by
  rw [accept]
  split <;> rfl

theorem writeCommand_specific (c : Chip) (i : Fin 8) :
    c.writeCommand (0x60 ||| BitVec.ofNat 8 i) = c.endOf i := by
  have hword : ∀ i : Fin 8, ((0x60 ||| BitVec.ofNat 8 i : Byte).getLsbD 4 = false ∧
      (0x60 ||| BitVec.ofNat 8 i : Byte).getLsbD 3 = false) ∧
      (0x60 ||| BitVec.ofNat 8 i : Byte).extractLsb' 5 3 = 0b011#3 ∧
      ((0x60 ||| BitVec.ofNat 8 i : Byte).extractLsb' 0 3).toFin = i := by decide
  obtain ⟨⟨h4, h3⟩, hcommand, hinput⟩ := hword i
  rw [writeCommand, if_neg (ne_true_of_eq_false h4), if_neg (ne_true_of_eq_false h3), if_pos hcommand,
    hinput]

theorem writeData_ready (h : c.stage = .ready) (v : Byte) : c.writeData v = { c with mask := v } := by
  rw [writeData, h]

end Chip

namespace Pair

variable {p : Pair} {r : Requests} {i : Fin 8}

theorem master_of_select (h : p.select r = some (.master i)) (hp : p.Cascaded) :
    p.master.Open i ∧ i ≠ slaveInput ∧ r.master i = true := by
  obtain ⟨j, hj, hsel⟩ := Option.bind_eq_some_iff.mp h
  obtain ⟨hreq, hopen⟩ := Chip.request_of_select hj
  split at hsel
  · cases hs : p.slave.select r.slave with
    | none => simp [hs] at hsel
    | some k => simp [hs] at hsel
  · rename_i hne
    cases hsel
    have hi : i ≠ slaveInput := fun heq => hne ⟨heq, hp⟩
    rw [inputs, Function.update_of_ne hi] at hreq
    exact ⟨hopen, hi, hreq⟩

theorem slave_of_select (h : p.select r = some (.slave i)) :
    p.master.Open slaveInput ∧ p.slave.Open i ∧ r.slave i = true := by
  obtain ⟨j, hj, hsel⟩ := Option.bind_eq_some_iff.mp h
  obtain ⟨-, hopen⟩ := Chip.request_of_select hj
  split at hsel
  · rename_i heq
    obtain ⟨k, hk, hki⟩ := Option.map_eq_some_iff.mp hsel
    cases hki
    obtain ⟨hreq, hslave⟩ := Chip.request_of_select hk
    exact ⟨heq.1 ▸ hopen, hslave, hreq⟩
  · cases hsel

/-- With nothing in service, a request that is not masked reaches the processor, unless one
of a higher priority does. -/
theorem select_first {x : Pin} (hc : p.Cascaded) (hp : p.Idle) (hr : r.pending x = true)
    (hx : match x with
      | .master i => i ≠ slaveInput ∧ ¬ p.master.Masked i
      | .slave i => ¬ p.master.Masked slaveInput ∧ ¬ p.slave.Masked i) :
    ∃ y, p.select r = some y ∧ r.pending y = true ∧ (y = x ∨ y.rank < x.rank) := by
  cases x with
  | master i =>
    have hin : p.inputs r i = true := by
      rw [inputs, Function.update_of_ne hx.1]
      exact hr
    obtain ⟨j, hle, hj⟩ := Chip.select_le hin (Chip.open_of_idle hx.2 fun j => (hp j).1)
    obtain ⟨hreq, -⟩ := Chip.request_of_select hj
    by_cases hslave : j = slaveInput
    · rw [hslave, inputs, Function.update_self] at hreq
      obtain ⟨k, hk⟩ := Option.isSome_iff_exists.mp hreq
      refine ⟨.slave k, ?_, (Chip.request_of_select hk).1, Or.inr ?_⟩
      · rw [select, hj, Option.bind_some, if_pos ⟨hslave, hc⟩, hk]
        rfl
      · have hi : (i : ℕ) ≠ 2 := fun h => hx.1 (Fin.ext h)
        have hj2 : (j : ℕ) = 2 := congrArg Fin.val hslave
        change 8 * 2 + (k : ℕ) < 8 * (i : ℕ)
        omega
    · rw [inputs, Function.update_of_ne hslave] at hreq
      refine ⟨.master j, ?_, hreq, ?_⟩
      · rw [select, hj, Option.bind_some, if_neg fun h => hslave h.1]
      · rcases Nat.eq_or_lt_of_le (Fin.le_def.mp hle) with heq | hlt
        · exact Or.inl (congrArg Pin.master (Fin.ext heq))
        · exact Or.inr (Nat.mul_lt_mul_of_pos_left hlt (by decide))
  | slave i =>
    obtain ⟨k, hki, hk⟩ := Chip.select_le hr (Chip.open_of_idle hx.2 fun j => (hp j).2)
    have hin : p.inputs r slaveInput = true := by
      rw [inputs, Function.update_self, hk]
      rfl
    obtain ⟨j, hle, hj⟩ := Chip.select_le hin (Chip.open_of_idle hx.1 fun j => (hp j).1)
    obtain ⟨hreq, -⟩ := Chip.request_of_select hj
    by_cases hslave : j = slaveInput
    · refine ⟨.slave k, ?_, (Chip.request_of_select hk).1, ?_⟩
      · rw [select, hj, Option.bind_some, if_pos ⟨hslave, hc⟩, hk]
        rfl
      · rcases Nat.eq_or_lt_of_le (Fin.le_def.mp hki) with heq | hlt
        · exact Or.inl (congrArg Pin.slave (Fin.ext heq))
        · exact Or.inr (Nat.add_lt_add_left hlt _)
    · rw [inputs, Function.update_of_ne hslave] at hreq
      refine ⟨.master j, ?_, hreq, Or.inr ?_⟩
      · rw [select, hj, Option.bind_some, if_neg fun h => hslave h.1]
      · have hj2 : (j : ℕ) ≠ 2 := fun h => hslave (Fin.ext h)
        have hle2 : (j : ℕ) ≤ 2 := hle
        change 8 * (j : ℕ) < 8 * 2 + (i : ℕ)
        omega

end Pair
end KudOS.Pic
