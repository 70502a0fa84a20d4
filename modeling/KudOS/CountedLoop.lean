import Mathlib.Data.Nat.Notation
import Mathlib.Logic.Function.Basic

/-!
# Counted loops

`forLoop n body s` runs `body 0`, `body 1`, ..., `body (n - 1)` in this order. A
property of the loop is proved from one step, with the number of completed
iterations as the induction variable. `scanLoop` looks for an index at which to stop; up
to there it is a counted loop.
-/

namespace KudOS

variable {σ α : Type*}

/-- `for (i = 0; i < n; i++) body`. -/
def forLoop : ℕ → (ℕ → σ → σ) → σ → σ
  | 0, _, s => s
  | n + 1, body, s => body n (forLoop n body s)

@[simp] theorem forLoop_zero (body : ℕ → σ → σ) (s : σ) : forLoop 0 body s = s := rfl

theorem forLoop_succ (n : ℕ) (body : ℕ → σ → σ) (s : σ) :
    forLoop (n + 1) body s = body n (forLoop n body s) := rfl

/-- The invariant rule: `P i` holds after `i` iterations. -/
theorem forLoop_induct (P : ℕ → σ → Prop) (body : ℕ → σ → σ) {n : ℕ} {s : σ}
    (start : P 0 s) (step : ∀ i, i < n → ∀ s, P i s → P (i + 1) (body i s)) :
    P n (forLoop n body s) := by
  induction n with
  | zero => exact start
  | succ n ih =>
    rw [forLoop_succ]
    exact step n (Nat.lt_succ_self n) _ (ih fun i hi => step i (Nat.lt_succ_of_lt hi))

/-- A loop over an array is a fold over its elements. -/
theorem forLoop_eq_foldl (n : ℕ) (g : σ → α → σ) (a : ℕ → α) (s : σ) :
    forLoop n (fun i s => g s (a i)) s = ((List.range n).map a).foldl g s := by
  induction n with
  | zero => rfl
  | succ n ih =>
    rw [forLoop_succ, ih, List.range_succ, List.map_append, List.foldl_append]
    rfl

/-- Storing to `n` consecutive elements of an array. -/
theorem forLoop_store (n base : ℕ) (x : ℕ → α) (a : ℕ → α) :
    forLoop n (fun i a => Function.update a (base + i) (x i)) a =
      fun k => if base ≤ k ∧ k < base + n then x (k - base) else a k := by
  induction n with
  | zero =>
    funext k
    have hk : ¬ (base ≤ k ∧ k < base + 0) := by omega
    rw [if_neg hk, forLoop_zero]
  | succ n ih =>
    funext k
    rw [forLoop_succ, ih]
    by_cases hk : k = base + n
    · subst hk
      simp
    · rw [Function.update_of_ne hk]
      have hiff : (base ≤ k ∧ k < base + n) ↔ (base ≤ k ∧ k < base + (n + 1)) := by omega
      simp only [hiff]

theorem forLoop_succ_front (n : ℕ) (body : ℕ → σ → σ) (s : σ) :
    forLoop (n + 1) body s = forLoop n (fun i => body (i + 1)) (body 0 s) := by
  induction n with
  | zero => rfl
  | succ n ih => rw [forLoop_succ, ih, forLoop_succ]

/-- `while (p(i)) { body; i++; }` from index `i` on: where it stops, and the state there,
if it stops within `n` tests. -/
def scanLoop (p : ℕ → Prop) [DecidablePred p] (body : ℕ → σ → σ) : ℕ → ℕ → σ → Option (ℕ × σ)
  | 0, _, _ => none
  | n + 1, i, s => if p i then scanLoop p body n (i + 1) (body i s) else some (i, s)

/-- A loop that stops after `k` iterations. -/
theorem scanLoop_eq {p : ℕ → Prop} [DecidablePred p] (body : ℕ → σ → σ) {n i k : ℕ} (s : σ)
    (hp : ∀ j < k, p (i + j)) (hstop : ¬ p (i + k)) (hn : k < n) :
    scanLoop p body n i s = some (i + k, forLoop k (fun j => body (i + j)) s) := by
  induction n generalizing i k s with
  | zero => exact absurd hn (Nat.not_lt_zero k)
  | succ n ih =>
    rw [scanLoop]
    cases k with
    | zero =>
      have hnot : ¬ p i := hstop
      rw [if_neg hnot, forLoop_zero, Nat.add_zero]
    | succ k =>
      have hshift : ∀ j, i + 1 + j = i + (j + 1) := fun j => by omega
      have hrest := ih (body i s) (i := i + 1) (k := k)
        (fun j hj => by rw [hshift]; exact hp (j + 1) (by omega)) (by rwa [hshift]) (by omega)
      have hpi : p i := hp 0 (Nat.succ_pos k)
      rw [if_pos hpi, hrest, forLoop_succ_front, hshift]
      simp only [hshift, Nat.add_zero]

/-- A counted loop whose body can fail does not fail, if the body keeps `P`. -/
theorem foldlM_range_ok {σ ε : Type} {f : σ → ℕ → Except ε σ} {P : ℕ → σ → Prop} {n : ℕ} {s : σ}
    (h0 : P 0 s) (hstep : ∀ i < n, ∀ u, P i u → ∃ u', f u i = .ok u' ∧ P (i + 1) u') :
    ∃ u, (List.range n).foldlM f s = .ok u ∧ P n u := by
  induction n with
  | zero => exact ⟨s, rfl, h0⟩
  | succ n ih =>
    obtain ⟨u, hu, hP⟩ := ih fun i hi => hstep i (by omega)
    obtain ⟨u', hu', hP'⟩ := hstep n (by omega) u hP
    refine ⟨u', ?_, hP'⟩
    rw [List.range_succ, List.foldlM_append, hu]
    change (f u n >>= pure) = _
    rw [hu']
    rfl

end KudOS
