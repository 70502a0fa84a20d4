import Mathlib.Data.List.Perm.Subperm
import Mathlib.Logic.Function.Basic

/-!
# Chains and linked lists

`Visits stop parent p l`: starting at `p` and following `parent`, one meets exactly
the elements of `l`, in this order, and then `stop`. A list linked by pointers, each an
element or nothing, is such a chain that stops at the null pointer; its elements are
determined by the pointers, and they are distinct.
-/

namespace KudOS

section

variable {α : Type*} {stop : α} {parent parent' : α → α} {p i : α} {l : List α}

inductive Visits (stop : α) (parent : α → α) : α → List α → Prop where
  | done : Visits stop parent stop []
  | step {p : α} {l : List α} (hp : p ≠ stop) (h : Visits stop parent (parent p) l) :
      Visits stop parent p (p :: l)

namespace Visits

theorem head_eq (h : Visits stop parent p l) : p = l.headD stop := by
  cases h <;> rfl

theorem tail (h : Visits stop parent p (i :: l)) : p = i ∧ Visits stop parent (parent i) l := by
  cases h with
  | step _ h => exact ⟨rfl, h⟩

/-- Only the pointers of the visited elements matter. -/
theorem congr (h : Visits stop parent p l) (heq : ∀ j ∈ l, parent j = parent' j) :
    Visits stop parent' p l := by
  induction h with
  | done => exact .done
  | step hp _ ih =>
    refine .step hp ?_
    rw [← heq _ List.mem_cons_self]
    exact ih fun j hj => heq j (List.mem_cons_of_mem _ hj)

end Visits

end

/-! ## Lists linked by pointers -/

variable {α : Type*} {next next' : α → Option α} {p : Option α} {a b i : α} {l l' x y : List α}

/-- Following `next` from `p`, one meets the elements of `l` and then a null pointer. -/
def Linked (next : α → Option α) (p : Option α) (l : List α) : Prop :=
  Visits none (fun q => q.bind next) p (l.map some)

namespace Linked

theorem none_iff : Linked next none l ↔ l = [] := by
  constructor
  · intro h
    cases l with
    | nil => rfl
    | cons a l => exact absurd h.head_eq (by simp)
  · rintro rfl
    exact .done

theorem some_iff : Linked next (some a) l ↔ ∃ l', l = a :: l' ∧ Linked next (next a) l' := by
  constructor
  · intro h
    cases l with
    | nil => exact absurd h.head_eq (by simp)
    | cons c l =>
      obtain ⟨heq, htail⟩ := Visits.tail h
      obtain rfl := Option.some.inj heq
      exact ⟨l, rfl, htail⟩
  · rintro ⟨l', rfl, h⟩
    exact .step (Option.some_ne_none a) h

theorem nil_iff : Linked next p [] ↔ p = none := by
  cases p with
  | none => simp [none_iff]
  | some a => simp [some_iff]

theorem cons_iff : Linked next p (a :: l) ↔ p = some a ∧ Linked next (next a) l := by
  cases p with
  | none => simp [none_iff]
  | some b =>
    rw [some_iff]
    constructor
    · rintro ⟨l', heq, h⟩
      obtain ⟨rfl, rfl⟩ := List.cons.inj heq
      exact ⟨rfl, h⟩
    · rintro ⟨hb, h⟩
      obtain rfl := Option.some.inj hb
      exact ⟨l, rfl, h⟩

/-- Only the pointers of the listed elements matter. -/
theorem congr (h : Linked next p l) (heq : ∀ j ∈ l, next' j = next j) : Linked next' p l := by
  refine Visits.congr h fun q hq => ?_
  obtain ⟨j, hj, rfl⟩ := List.mem_map.mp hq
  exact (heq j hj).symm

theorem unique (h : Linked next p l) (h' : Linked next p l') : l = l' := by
  induction l generalizing p l' with
  | nil =>
    rw [nil_iff.mp h] at h'
    exact (none_iff.mp h').symm
  | cons a l ih =>
    obtain ⟨rfl, hrest⟩ := cons_iff.mp h
    obtain ⟨l'', rfl, hrest'⟩ := some_iff.mp h'
    rw [ih hrest hrest']

/-- The rest of a linked list, from any of its elements on. -/
theorem from_mem (h : Linked next p (x ++ a :: y)) : Linked next (some a) (a :: y) := by
  induction x generalizing p with
  | nil =>
    obtain ⟨rfl, -⟩ := cons_iff.mp h
    exact h
  | cons c x ih => exact ih (cons_iff.mp h).2

/-- A list that ends never returns to an element. -/
theorem nodup (h : Linked next p l) : l.Nodup := by
  induction l generalizing p with
  | nil => exact List.nodup_nil
  | cons a l ih =>
    refine List.nodup_cons.mpr ⟨fun hmem => ?_, ih (cons_iff.mp h).2⟩
    obtain ⟨x, y, rfl⟩ := List.append_of_mem hmem
    have hfirst : Linked next (some a) (a :: (x ++ a :: y)) := from_mem (x := []) h
    have hlater : Linked next (some a) (a :: y) := from_mem (x := a :: x) h
    have hlen := congrArg List.length (hfirst.unique hlater)
    simp only [List.length_cons, List.length_append] at hlen
    omega

theorem insert (h : Linked next p l) (ha : next' a = p) (heq : ∀ j ∈ l, next' j = next j) :
    Linked next' (some a) (a :: l) := by
  rw [cons_iff, ha]
  exact ⟨rfl, h.congr heq⟩

/-- The pointer of `b` steps over the element `i` behind it. -/
theorem unlink (h : Linked next p (x ++ b :: i :: y)) (hb : next' b = next i)
    (heq : ∀ j ∈ x ++ y, next' j = next j) : Linked next' p (x ++ b :: y) := by
  induction x generalizing p with
  | nil =>
    obtain ⟨rfl, hrest⟩ := cons_iff.mp h
    rw [List.nil_append, cons_iff, hb]
    exact ⟨rfl, (cons_iff.mp hrest).2.congr heq⟩
  | cons c x ih =>
    obtain ⟨rfl, hrest⟩ := cons_iff.mp h
    rw [List.cons_append, cons_iff, heq c List.mem_cons_self]
    exact ⟨rfl, ih hrest fun j hj => heq j (List.mem_cons_of_mem c hj)⟩

/-- Distinct elements of an array of `n`. -/
theorem length_le {next : ℕ → Option ℕ} {p : Option ℕ} {l : List ℕ} {n : ℕ}
    (h : Linked next p l) (hn : ∀ i ∈ l, i < n) : l.length ≤ n := by
  have hsubperm : l.Subperm (List.range n) :=
    h.nodup.subperm fun i hi => List.mem_range.mpr (hn i hi)
  calc l.length ≤ (List.range n).length := hsubperm.length_le
    _ = n := List.length_range

end Linked
end KudOS
