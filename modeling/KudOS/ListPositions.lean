import Mathlib.Data.List.Flatten
import Mathlib.Data.List.GetD
import Mathlib.Data.List.Infix
import Mathlib.Data.List.Range
import Mathlib.Data.Nat.Notation

/-!
# Positions in lists

`EachNext P l` says that `P p a` holds of every element `a` of `l` and the part `p` of the
list before it. Such properties are proved by induction from the end of the list. Two lists
can be gone through in step, to the end of the longer one; behind its end a list is padded.
-/

namespace KudOS

variable {α : Type*} {P : List α → α → Prop} {l l' : List α} {a : α}

def EachNext (P : List α → α → Prop) (l : List α) : Prop := ∀ p a, p ++ [a] <+: l → P p a

theorem eachNext_nil : EachNext P [] := by
  intro p a hp
  exact absurd (List.prefix_nil.mp hp) (List.append_ne_nil_of_right_ne_nil p (List.cons_ne_nil a []))

theorem EachNext.of_prefix (h : EachNext P l) (hl : l' <+: l) : EachNext P l' :=
  fun p a hp => h p a (hp.trans hl)

theorem eachNext_concat : EachNext P (l ++ [a]) ↔ EachNext P l ∧ P l a := by
  constructor
  · exact fun h => ⟨h.of_prefix (List.prefix_append l [a]), h l a List.prefix_rfl⟩
  · rintro ⟨h, ha⟩ p a' hp
    rcases List.prefix_concat_iff.mp hp with heq | hpre
    · obtain ⟨rfl, hlast⟩ := List.append_singleton_inj.mp heq
      rwa [hlast]
    · exact h p a' hpre

/-- The elements are checked one after the other. -/
theorem eachNext_iff_forall_fin :
    EachNext P l ↔ ∀ i : Fin l.length, P (l.take i) (l.get i) := by
  constructor
  · intro h i
    refine h _ _ ?_
    rw [List.get_eq_getElem, List.take_append_getElem i.isLt]
    exact List.take_prefix _ l
  · rintro h p a ⟨r, rfl⟩
    have hi : p.length < (p ++ [a] ++ r).length := by simp
    simpa using h ⟨p.length, hi⟩

instance [∀ p a, Decidable (P p a)] : Decidable (EachNext P l) :=
  decidable_of_iff _ eachNext_iff_forall_fin.symm

end KudOS

namespace KudOS.PaddedLists

variable {α β γ : Type*} {x : α} {y : β} {G : ℕ → α → β → List γ} {l : List α} {l' : List β}
  {n : ℕ} {c : γ} {R : γ → γ → Prop}

/-- What the pairs at the positions give, where the first position is counted as `n`. -/
def inStep (x : α) (y : β) (G : ℕ → α → β → List γ) (n : ℕ) (l : List α) (l' : List β) : List γ :=
  (List.range (max l.length l'.length)).flatMap fun i => G (n + i) (l.getD i x) (l'.getD i y)

@[simp] theorem inStep_nil (n : ℕ) : inStep x y G n [] [] = [] := rfl

/-- The first position, and the tails. -/
theorem inStep_step (hpad : G n x y = []) :
    inStep x y G n l l' =
      G n (l.headD x) (l'.headD y) ++ inStep x y G (n + 1) l.tail l'.tail := by
  by_cases h : l = [] ∧ l' = []
  · obtain ⟨rfl, rfl⟩ := h
    rw [List.headD_nil, List.headD_nil, hpad]
    rfl
  have hlen : max l.length l'.length = max l.tail.length l'.tail.length + 1 := by
    have hpos : 0 < l.length ∨ 0 < l'.length := by
      rw [not_and_or] at h
      exact h.imp List.length_pos_of_ne_nil List.length_pos_of_ne_nil
    rw [List.length_tail, List.length_tail]
    omega
  have hfirst : l.getD 0 x = l.headD x := by cases l <;> rfl
  have hfirst' : l'.getD 0 y = l'.headD y := by cases l' <;> rfl
  have hrest : ∀ i, l.getD (i + 1) x = l.tail.getD i x := by
    intro i
    cases l <;> simp
  have hrest' : ∀ i, l'.getD (i + 1) y = l'.tail.getD i y := by
    intro i
    cases l' <;> simp
  rw [inStep, hlen, List.range_succ_eq_map, List.flatMap_cons, Nat.add_zero, hfirst, hfirst',
    List.flatMap_map, inStep]
  simp only [hrest, hrest', Nat.add_right_comm n, Nat.succ_eq_add_one, ← Nat.add_assoc]

end KudOS.PaddedLists
