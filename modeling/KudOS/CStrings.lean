import KudOS.CountedLoop
import Mathlib.Data.List.TakeWhile

/-!
# Terminated strings

A string in memory ends in front of the first terminator `z`. A field of `n` cells may
also be full, and then has no terminator of its own. Strings are stored one behind the
other in a larger array, and are split at a separator.
-/

namespace KudOS

variable {α : Type*} {z : α} {a b : ℕ → α} {l l' : List α}

/-- The array starts with the characters of `l` and a terminator. -/
structure HoldsString (z : α) (a : ℕ → α) (l : List α) : Prop where
  char : ∀ i (h : i < l.length), a i = l[i]
  terminated : a l.length = z
  no_terminator : z ∉ l

namespace HoldsString

theorem char_ne (h : HoldsString z a l) {i : ℕ} (hi : i < l.length) : a i ≠ z := by
  rw [h.char i hi]
  intro hz
  exact h.no_terminator (hz ▸ List.getElem_mem hi)

theorem tail {c : α} (h : HoldsString z a (c :: l)) : HoldsString z (fun i => a (i + 1)) l where
  char i hi := h.char (i + 1) (Nat.succ_lt_succ hi)
  terminated := h.terminated
  no_terminator := fun hz => h.no_terminator (List.mem_cons_of_mem c hz)

theorem head {c : α} (h : HoldsString z a (c :: l)) : a 0 = c ∧ c ≠ z :=
  ⟨h.char 0 (Nat.succ_pos _), fun hc => h.no_terminator (by simp [hc])⟩

theorem drop (h : HoldsString z a l) {i : ℕ} (hi : i ≤ l.length) :
    HoldsString z (fun k => a (i + k)) (l.drop i) where
  char k hk := by
    rw [List.length_drop] at hk
    rw [List.getElem_drop]
    exact h.char (i + k) (by omega)
  terminated := by
    rw [List.length_drop, Nat.add_sub_cancel' hi]
    exact h.terminated
  no_terminator := fun hz => h.no_terminator (List.mem_of_mem_drop hz)

/-- Where the characters cease to satisfy `p`. -/
theorem takeWhile (h : HoldsString z a l) (p : α → Bool) :
    (∀ i < (l.takeWhile p).length, p (a i) = true ∧ a i ≠ z) ∧
      (a (l.takeWhile p).length = z ∨ p (a (l.takeWhile p).length) = false) := by
  induction l generalizing a with
  | nil => exact ⟨fun i hi => absurd hi (Nat.not_lt_zero i), Or.inl h.terminated⟩
  | cons c l ih =>
    obtain ⟨hc, hne⟩ := h.head
    by_cases hp : p c = true
    · obtain ⟨hall, hend⟩ := ih h.tail
      rw [List.takeWhile_cons_of_pos hp]
      refine ⟨fun i hi => ?_, hend⟩
      cases i with
      | zero => exact hc ▸ ⟨hp, hne⟩
      | succ i => exact hall i (Nat.lt_of_succ_lt_succ hi)
    · rw [List.takeWhile_cons_of_neg hp]
      refine ⟨fun i hi => absurd hi (Nat.not_lt_zero i), Or.inr ?_⟩
      rw [List.length_nil, hc]
      exact Bool.eq_false_iff.mpr hp

/-- Cells behind the terminator do not matter. -/
theorem congr (h : HoldsString z a l) (heq : ∀ i ≤ l.length, b i = a i) : HoldsString z b l where
  char i hi := (heq i hi.le).trans (h.char i hi)
  terminated := (heq _ le_rfl).trans h.terminated
  no_terminator := h.no_terminator

end HoldsString

/-! ## Storing a string -/

/-- The memory after `l` and a terminator were stored from cell `p` on. -/
def storeText (z : α) (p : ℕ) (l : List α) (m : ℕ → α) : ℕ → α :=
  fun k => if p ≤ k ∧ k ≤ p + l.length then l.getD (k - p) z else m k

theorem storeText_of_mem {p k : ℕ} (m : ℕ → α) (hk : p ≤ k ∧ k ≤ p + l.length) :
    storeText z p l m k = l.getD (k - p) z := if_pos hk

theorem storeText_of_not_mem {p k : ℕ} (m : ℕ → α) (hk : ¬ (p ≤ k ∧ k ≤ p + l.length)) :
    storeText z p l m k = m k := if_neg hk

theorem storeText_holds (p : ℕ) (m : ℕ → α) (hl : z ∉ l) :
    HoldsString z (fun i => storeText z p l m (p + i)) l where
  char i hi := by
    rw [storeText, if_pos (by omega), Nat.add_sub_cancel_left]
    simp [hi]
  terminated := by
    rw [storeText, if_pos (by omega), Nat.add_sub_cancel_left]
    simp
  no_terminator := hl

/-- A loop that stores the characters one by one, and the store of a terminator. -/
theorem forLoop_storeText {p : ℕ} {x : ℕ → α} (m : ℕ → α) (hx : ∀ i (h : i < l.length), x i = l[i]) :
    Function.update (forLoop l.length (fun i m => Function.update m (p + i) (x i)) m)
      (p + l.length) z = storeText z p l m := by
  funext k
  rw [forLoop_store, storeText]
  by_cases hend : k = p + l.length
  · subst hend
    simp
  · rw [Function.update_of_ne hend]
    by_cases hin : p ≤ k ∧ k < p + l.length
    · rw [if_pos hin, if_pos (by omega), hx (k - p) (by omega)]
      simp [show k - p < l.length by omega]
    · rw [if_neg hin, if_neg (by omega)]

/-! ## Fields -/

variable [DecidableEq α]

/-- The text from cell `i` on, within `n` cells. -/
def textFrom (z : α) (a : ℕ → α) : ℕ → ℕ → List α
  | 0, _ => []
  | n + 1, i => if a i = z then [] else a i :: textFrom z a n (i + 1)

/-- The text of a field of `n` cells. -/
def fieldText (z : α) (a : ℕ → α) (n : ℕ) : List α := textFrom z a n 0

theorem textFrom_shift (n i : ℕ) : textFrom z a n (i + 1) = textFrom z (fun k => a (k + 1)) n i := by
  induction n generalizing i with
  | zero => rfl
  | succ n ih => rw [textFrom, textFrom, ih]

theorem length_textFrom_le (n i : ℕ) : (textFrom z a n i).length ≤ n := by
  induction n generalizing i with
  | zero => exact le_rfl
  | succ n ih =>
    rw [textFrom]
    split
    · exact Nat.zero_le _
    · exact Nat.succ_le_succ (ih (i + 1))

theorem getElem_textFrom (n i k : ℕ) (hk : k < (textFrom z a n i).length) :
    (textFrom z a n i)[k] = a (i + k) := by
  induction n generalizing i k with
  | zero => exact absurd hk (Nat.not_lt_zero k)
  | succ n ih =>
    by_cases hi : a i = z
    · simp [textFrom, hi] at hk
    · simp only [textFrom, if_neg hi, List.length_cons] at hk ⊢
      cases k with
      | zero => rfl
      | succ k =>
        rw [List.getElem_cons_succ, ih (i + 1) k (by omega)]
        congr 1
        omega

/-- The text goes on behind `n` cells exactly if it fills them. -/
theorem textFrom_add (n k i : ℕ) : textFrom z a (n + k) i =
    if (textFrom z a n i).length = n then textFrom z a n i ++ textFrom z a k (i + n)
    else textFrom z a n i := by
  induction n generalizing i with
  | zero => simp [textFrom]
  | succ n ih =>
    rw [Nat.succ_add, textFrom, ih (i + 1)]
    by_cases hi : a i = z
    · simp [textFrom, hi]
    · have hadd : i + 1 + n = i + (n + 1) := by omega
      by_cases hfull : (textFrom z a n (i + 1)).length = n <;>
        simp [textFrom, hi, hfull, hadd]

theorem textFrom_congr {n i : ℕ} (h : ∀ k, i ≤ k → k < i + n → a k = b k) :
    textFrom z a n i = textFrom z b n i := by
  induction n generalizing i with
  | zero => rfl
  | succ n ih =>
    rw [textFrom, textFrom, h i le_rfl (by omega),
      ih fun k hk hk' => h k (by omega) (by omega)]

/-- The first `n` cells of a string. -/
theorem HoldsString.fieldText_eq (h : HoldsString z a l) (n : ℕ) :
    fieldText z a n = l.take n := by
  induction n generalizing a l with
  | zero => simp [fieldText, textFrom]
  | succ n ih =>
    rw [fieldText, textFrom]
    cases l with
    | nil =>
      have hend : a 0 = z := h.terminated
      rw [if_pos hend, List.take_nil]
    | cons c l =>
      obtain ⟨hc, hne⟩ := h.head
      rw [hc, if_neg hne, textFrom_shift, List.take_succ_cons]
      exact congrArg (c :: ·) (ih h.tail)

/-! ## Splitting at a separator -/

/-- `l` is `name`, some separators and `args`, of which `name` has no separator and `args`
does not begin with one. -/
structure IsSplit (b : α) (l name args : List α) : Prop where
  name_free : b ∉ name
  args_head : args.head? ≠ some b
  joined : ∃ k, l = name ++ List.replicate k b ++ args ∧ (k = 0 → args = [])

/-- The part in front of the first separator. -/
def headPart (b : α) (l : List α) : List α := l.takeWhile fun c => c ≠ b

/-- The part behind it, without the separators it begins with. -/
def tailPart (b : α) (l : List α) : List α :=
  (l.drop (headPart b l).length).dropWhile fun c => c = b

variable {c : α}

omit [DecidableEq α] in
theorem dropWhile_eq_drop (p : α → Bool) (l : List α) :
    l.dropWhile p = l.drop (l.takeWhile p).length := by
  have hdrop := congrArg (List.drop (l.takeWhile p).length)
    (List.takeWhile_append_dropWhile : l.takeWhile p ++ l.dropWhile p = l)
  rwa [List.drop_left] at hdrop

theorem headPart_append (hl : c ∉ l) : headPart c (l ++ l') = l ++ headPart c l' := by
  rw [headPart, List.takeWhile_append_of_pos]
  · rfl
  · intro d hd
    simp only [decide_eq_true_eq]
    exact fun hdc => hl (hdc ▸ hd)

/-- The parts are determined by what they satisfy. -/
theorem IsSplit.eq_parts {name args : List α} (h : IsSplit c l name args) :
    name = headPart c l ∧ args = tailPart c l := by
  obtain ⟨k, rfl, hk⟩ := h.joined
  have hhead : headPart c (name ++ List.replicate k c ++ args) = name := by
    rw [List.append_assoc, headPart_append h.name_free]
    cases k with
    | zero =>
      rw [hk rfl]
      simp [headPart]
    | succ k => simp [headPart, List.replicate_succ]
  refine ⟨hhead.symm, ?_⟩
  have hdrop : (name ++ List.replicate k c ++ args).drop name.length =
      List.replicate k c ++ args := by
    rw [List.append_assoc, List.drop_left]
  have hargs : args.dropWhile (fun d => decide (d = c)) = args := by
    cases args with
    | nil => rfl
    | cons d args =>
      have hd : ¬ d = c := fun hdc => h.args_head (by rw [hdc]; rfl)
      simp [hd]
  rw [tailPart, hhead, hdrop, List.dropWhile_append_of_pos (by simp), hargs]

theorem isSplit_parts (c : α) (l : List α) : IsSplit c l (headPart c l) (tailPart c l) where
  name_free := by
    intro hc
    have hne := List.mem_takeWhile_imp hc
    simp at hne
  args_head := by
    intro hc
    have hhead := List.head?_dropWhile_not (fun d => decide (d = c)) (l.drop (headPart c l).length)
    rw [← tailPart, hc] at hhead
    simp at hhead
  joined := by
    have hl : l = headPart c l ++ l.dropWhile fun d => decide (d ≠ c) :=
      List.takeWhile_append_dropWhile.symm
    have hsplit : l.drop (headPart c l).length = l.dropWhile fun d => decide (d ≠ c) :=
      (dropWhile_eq_drop _ l).symm
    have hspaces : ∀ rest : List α, rest.takeWhile (fun d => decide (d = c)) =
        List.replicate (rest.takeWhile fun d => decide (d = c)).length c :=
      fun rest => List.eq_replicate_of_mem fun d hd => by simpa using List.mem_takeWhile_imp hd
    refine ⟨((l.drop (headPart c l).length).takeWhile fun d => decide (d = c)).length, ?_,
      fun hk => ?_⟩
    · rw [← hspaces, List.append_assoc, tailPart, List.takeWhile_append_dropWhile, hsplit]
      exact hl
    · have hhead := List.head?_dropWhile_not (fun d => decide (d ≠ c)) l
      rw [← hsplit] at hhead
      rw [tailPart]
      cases hrest : l.drop (headPart c l).length with
      | nil => rfl
      | cons d rest =>
        rw [hrest] at hhead hk
        have hd : d = c := by simpa using hhead
        simp [hd] at hk

end KudOS
