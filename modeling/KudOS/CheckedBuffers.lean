import KudOS.CStrings

/-!
# Buffers with checked accesses

An array of a fixed size. A load or a store outside of it has no result, so a function
that has one for every input stays inside its buffers. The loops look for the end of a
string, collect its characters, and reverse a part of the buffer in place.
-/

namespace KudOS

variable {α : Type}

structure Buffer (α : Type) where
  size : ℕ
  cell : ℕ → α

namespace Buffer

def load (b : Buffer α) (i : ℕ) : Option α := if i < b.size then some (b.cell i) else none

def store (b : Buffer α) (i : ℕ) (x : α) : Option (Buffer α) :=
  if i < b.size then some { b with cell := Function.update b.cell i x } else none

/-- From cell `p` on stands the string `l`, with its terminator inside the buffer. -/
structure Holds (z : α) (b : Buffer α) (p : ℕ) (l : List α) : Prop where
  string : HoldsString z (fun i => b.cell (p + i)) l
  inside : p + l.length < b.size

variable {z : α} {b : Buffer α} {i p : ℕ} {x : α} {l : List α}

theorem load_of_lt (h : i < b.size) : b.load i = some (b.cell i) := if_pos h

theorem store_of_lt (h : i < b.size) (x : α) :
    b.store i x = some { b with cell := Function.update b.cell i x } := if_pos h

theorem Holds.load (h : b.Holds z p l) (hi : i < l.length) : b.load (p + i) = some l[i] := by
  have hin := h.inside
  rw [load_of_lt (by omega), ← h.string.char i hi]

theorem Holds.load_end (h : b.Holds z p l) : b.load (p + l.length) = some z := by
  rw [load_of_lt h.inside]
  exact congrArg some h.string.terminated

theorem Holds.append_right {l' : List α} (h : b.Holds z p (l ++ l')) :
    b.Holds z (p + l.length) l' := by
  have hin := h.inside
  rw [List.length_append] at hin
  have hdrop := h.string.drop (i := l.length) (by rw [List.length_append]; omega)
  rw [List.drop_left] at hdrop
  refine ⟨?_, by omega⟩
  simp only [Nat.add_assoc]
  exact hdrop

/-! ## The end of a string -/

section Scan

variable [DecidableEq α]

/-- `while (s[len] != z) len++`, where the string starts at cell `p`. -/
def lengthLoop (z : α) (b : Buffer α) (p : ℕ) : ℕ → ℕ → Option ℕ
  | 0, _ => none
  | n + 1, len => do
    let c ← b.load (p + len)
    if c = z then some len else lengthLoop z b p n (len + 1)

/-- The characters that a loop over the string meets, one after the other. -/
def textLoop (z : α) (b : Buffer α) (p : ℕ) : ℕ → ℕ → Option (List α)
  | 0, _ => none
  | n + 1, index => do
    let c ← b.load (p + index)
    if c = z then some []
    else do
      let rest ← textLoop z b p n (index + 1)
      some (c :: rest)

/-- The scan ends at the terminator, and no more tests are needed than there are cells. -/
theorem Holds.lengthLoop_eq (h : b.Holds z p l) {n k : ℕ} (hk : k ≤ l.length)
    (hn : l.length < k + n) : lengthLoop z b p n k = some l.length := by
  induction n generalizing k with
  | zero => omega
  | succ n ih =>
    have hin := h.inside
    rw [lengthLoop, load_of_lt (by omega), Option.bind_eq_bind, Option.bind_some]
    rcases Nat.lt_or_eq_of_le hk with hlt | rfl
    · rw [if_neg (h.string.char_ne hlt), ih (by omega) (by omega)]
    · rw [if_pos h.string.terminated]

theorem Holds.textLoop_eq (h : b.Holds z p l) {n k : ℕ} (hk : k ≤ l.length)
    (hn : l.length < k + n) : textLoop z b p n k = some (l.drop k) := by
  induction n generalizing k with
  | zero => omega
  | succ n ih =>
    have hin := h.inside
    rw [textLoop, load_of_lt (by omega), Option.bind_eq_bind, Option.bind_some]
    rcases Nat.lt_or_eq_of_le hk with hlt | rfl
    · rw [if_neg (h.string.char_ne hlt), ih (by omega) (by omega), List.drop_eq_getElem_cons hlt,
        ← h.string.char k hlt]
      rfl
    · rw [if_pos h.string.terminated, List.drop_length]

end Scan

/-! ## Parts of a buffer -/

/-- The cells from `p` on are the list `l`. -/
structure Span (b : Buffer α) (p : ℕ) (l : List α) : Prop where
  cell : ∀ i (h : i < l.length), b.cell (p + i) = l[i]
  inside : p + l.length ≤ b.size

theorem span_nil (h : p ≤ b.size) : b.Span p [] :=
  ⟨fun _ hi => absurd hi (Nat.not_lt_zero _), h⟩

theorem Span.load (h : b.Span p l) (hi : i < l.length) : b.load (p + i) = some l[i] := by
  have hin := h.inside
  rw [load_of_lt (by omega), h.cell i hi]

theorem Span.left {l' : List α} (h : b.Span p (l ++ l')) : b.Span p l := by
  have hin := h.inside
  rw [List.length_append] at hin
  refine ⟨fun i hi => ?_, by omega⟩
  rw [h.cell i (by rw [List.length_append]; omega), List.getElem_append_left hi]

theorem Span.right {l' : List α} (h : b.Span p (l ++ l')) : b.Span (p + l.length) l' := by
  have hin := h.inside
  rw [List.length_append] at hin
  refine ⟨fun i hi => ?_, by omega⟩
  rw [Nat.add_assoc, h.cell (l.length + i) (by rw [List.length_append]; omega),
    List.getElem_append_right (by omega)]
  simp

theorem Span.append {l' : List α} (h : b.Span p l) (h' : b.Span (p + l.length) l') :
    b.Span p (l ++ l') := by
  have hin := h'.inside
  refine ⟨fun i hi => ?_, by rw [List.length_append]; omega⟩
  rw [List.length_append] at hi
  by_cases hl : i < l.length
  · rw [h.cell i hl, List.getElem_append_left hl]
  · have hcell := h'.cell (i - l.length) (by omega)
    have hindex : p + l.length + (i - l.length) = p + i := by omega
    rw [List.getElem_append_right (by omega), ← hcell, hindex]

theorem Span.congr {b' : Buffer α} (h : b.Span p l) (hsize : b'.size = b.size)
    (hcell : ∀ i, p ≤ i → i < p + l.length → b'.cell i = b.cell i) : b'.Span p l := by
  refine ⟨fun i hi => ?_, hsize ▸ h.inside⟩
  rw [hcell (p + i) (by omega) (by omega), h.cell i hi]

/-- A part that is followed by a terminator is a string. -/
theorem Span.holds (h : b.Span p l) (hz : z ∉ l) (hend : b.cell (p + l.length) = z)
    (hin : p + l.length < b.size) : b.Holds z p l :=
  ⟨⟨h.cell, hend, hz⟩, hin⟩

theorem Holds.span (h : b.Holds z p l) : b.Span p l := ⟨h.string.char, h.inside.le⟩

def storeList : Buffer α → ℕ → List α → Option (Buffer α)
  | b, _, [] => some b
  | b, p, c :: l => do
    let b ← b.store p c
    storeList b (p + 1) l

theorem storeList_eq (h : p + l.length ≤ b.size) :
    ∃ b', b.storeList p l = some b' ∧ b'.size = b.size ∧ b'.Span p l ∧
      ∀ i, ¬ (p ≤ i ∧ i < p + l.length) → b'.cell i = b.cell i := by
  induction l generalizing b p with
  | nil => exact ⟨b, rfl, rfl, span_nil h, fun _ _ => rfl⟩
  | cons c l ih =>
    rw [List.length_cons] at h
    obtain ⟨b', hb', hsize, hspan, hframe⟩ :=
      ih (b := { b with cell := Function.update b.cell p c }) (p := p + 1) (by dsimp only; omega)
    refine ⟨b', ?_, hsize, ?_, fun i hi => ?_⟩
    · rw [storeList, store_of_lt (by omega)]
      exact hb'
    · have hfirst : b'.Span p [c] := by
        refine ⟨fun i hi => ?_, by rw [hsize]; dsimp only [List.length_singleton]; omega⟩
        obtain rfl : i = 0 := by simpa using hi
        rw [Nat.add_zero, hframe p (by omega)]
        exact Function.update_self ..
      exact hfirst.append hspan
    · rw [List.length_cons] at hi
      rw [hframe i (by omega)]
      exact Function.update_of_ne (by omega) ..

def loadList (b : Buffer α) : ℕ → ℕ → Option (List α)
  | _, 0 => some []
  | p, n + 1 => do
    let c ← b.load p
    let l ← loadList b (p + 1) n
    some (c :: l)

theorem Span.loadList_eq (h : b.Span p l) : b.loadList p l.length = some l := by
  induction l generalizing p with
  | nil => rfl
  | cons c l ih =>
    have hfirst : b.load p = some c := h.load (i := 0) (Nat.succ_pos _)
    have hrest : b.Span (p + 1) l := Span.right (l := [c]) h
    rw [List.length_cons, loadList, hfirst, ih hrest]
    rfl

/-! ## Storing a string -/

/-- The buffer after a string and its terminator were stored from cell `p` on. -/
def withText (z : α) (b : Buffer α) (p : ℕ) (l : List α) : Buffer α :=
  { b with cell := storeText z p l b.cell }

theorem withText_holds (hl : z ∉ l) (hp : p + l.length < b.size) :
    (b.withText z p l).Holds z p l :=
  ⟨storeText_holds p b.cell hl, hp⟩

/-- The characters one by one, and then the terminator. -/
theorem withText_cons (z : α) (b : Buffer α) (p : ℕ) (c : α) (l : List α) :
    ({ b with cell := Function.update b.cell p c } : Buffer α).withText z (p + 1) l =
      b.withText z p (c :: l) := by
  have hcell : storeText z (p + 1) l (Function.update b.cell p c) =
      storeText z p (c :: l) b.cell := by
    funext k
    by_cases hin : p + 1 ≤ k ∧ k ≤ p + 1 + l.length
    · obtain ⟨j, rfl⟩ : ∃ j, k = p + (j + 1) := ⟨k - (p + 1), by omega⟩
      have hj : p + (j + 1) - (p + 1) = j := by omega
      rw [storeText_of_mem _ hin, storeText_of_mem _ (by rw [List.length_cons]; omega), hj,
        Nat.add_sub_cancel_left, List.getD_cons_succ]
    · rw [storeText_of_not_mem _ hin]
      by_cases hkp : k = p
      · subst hkp
        rw [Function.update_self, storeText_of_mem _ (by omega), Nat.sub_self,
          List.getD_cons_zero]
      · rw [Function.update_of_ne hkp,
          storeText_of_not_mem _ (by rw [List.length_cons]; omega)]
  rw [withText, withText, hcell]

theorem withText_nil (z : α) (b : Buffer α) (p : ℕ) :
    b.withText z p [] = { b with cell := Function.update b.cell p z } := by
  rw [withText]
  congr 1
  funext k
  by_cases hkp : k = p
  · subst hkp
    rw [Function.update_self, storeText_of_mem _ (by omega), Nat.sub_self]
    rfl
  · rw [Function.update_of_ne hkp, storeText_of_not_mem _ (by rw [List.length_nil]; omega)]

/-! ## Reversing in place -/

/-- The swaps from both ends `q + beg` and `q + last` towards the middle. -/
def reverseLoop (q : ℕ) : ℕ → Buffer α → ℕ → ℤ → Option (Buffer α)
  | 0, _, _, _ => none
  | n + 1, b, beg, last =>
    if (beg : ℤ) < last then do
      let tmp ← b.load (q + last.toNat)
      let c ← b.load (q + beg)
      let b ← b.store (q + last.toNat) c
      let b ← b.store (q + beg) tmp
      reverseLoop q n b (beg + 1) (last - 1)
    else some b

/-- The `len` cells from `q` on, the other way round. -/
def reversed (b : Buffer α) (q len : ℕ) : Buffer α :=
  { b with cell := fun i => if q ≤ i ∧ i < q + len then b.cell (q + (q + len - 1 - i))
      else b.cell i }

theorem reversed_of_le_one (b : Buffer α) (q : ℕ) {len : ℕ} (h : len ≤ 1) :
    b.reversed q len = b := by
  rw [reversed]
  congr 1
  funext i
  split
  · congr 1
    omega
  · rfl

/-- Swapping the ends and reversing what is between them. -/
theorem reversed_swap (b : Buffer α) (q len : ℕ) :
    (⟨b.size, Function.update (Function.update b.cell (q + (len + 1)) (b.cell q)) q
        (b.cell (q + (len + 1)))⟩ : Buffer α).reversed (q + 1) len =
      b.reversed q (len + 2) := by
  rw [reversed, reversed]
  congr 1
  funext i
  dsimp only
  by_cases hmid : q + 1 ≤ i ∧ i < q + 1 + len
  · rw [if_pos hmid, if_pos (by omega), Function.update_of_ne (by omega),
      Function.update_of_ne (by omega)]
    congr 1
    omega
  rw [if_neg hmid]
  by_cases hfirst : i = q
  · subst hfirst
    rw [Function.update_self, if_pos (by omega)]
    congr 1
    omega
  rw [Function.update_of_ne hfirst]
  by_cases hlast : i = q + (len + 1)
  · subst hlast
    rw [Function.update_self, if_pos (by omega)]
    congr 1
    omega
  · rw [Function.update_of_ne hlast, if_neg (by omega)]

/-- The invariant of the loop: `len` cells are left between the two indices. -/
theorem reverseLoop_eq {q n len beg : ℕ} (hsize : q + beg + len ≤ b.size) (hn : len < n) :
    reverseLoop q n b beg (beg + len - 1) = some (b.reversed (q + beg) len) := by
  induction n generalizing b beg len with
  | zero => omega
  | succ n ih =>
    rw [reverseLoop]
    match len with
    | 0 | 1 =>
      rw [if_neg (by omega), reversed_of_le_one b _ (by omega)]
    | len + 2 =>
      have hlast : ((beg : ℤ) + ((len + 2 : ℕ) : ℤ) - 1).toNat = beg + (len + 1) := by omega
      have hindex : q + (beg + (len + 1)) = q + beg + (len + 1) := by omega
      have hnext : ((beg : ℤ) + ((len + 2 : ℕ) : ℤ) - 1) - 1 =
          ((beg + 1 : ℕ) : ℤ) + (len : ℤ) - 1 := by omega
      rw [if_pos (by omega), hlast, hindex, hnext, load_of_lt (by omega), load_of_lt (by omega)]
      simp only [Option.bind_eq_bind, Option.bind_some]
      rw [store_of_lt (by omega), Option.bind_some, store_of_lt (by change _ < b.size; omega),
        Option.bind_some, ih (by change _ ≤ b.size; omega) (by omega)]
      exact congrArg some (reversed_swap b (q + beg) len)

theorem withText_reversed (z : α) (b : Buffer α) (p : ℕ) (l : List α) :
    (b.withText z p l).reversed p l.length = b.withText z p l.reverse := by
  rw [reversed, withText, withText]
  congr 1
  funext i
  dsimp only
  have hlen : l.reverse.length = l.length := List.length_reverse
  by_cases hin : p ≤ i ∧ i < p + l.length
  · have hj : p + (p + l.length - 1 - i) - p = l.length - 1 - (i - p) := by omega
    have hlt : i - p < l.length := by omega
    rw [if_pos hin, storeText_of_mem _ (by omega), storeText_of_mem _ (by omega), hj,
      List.getD_eq_getElem?_getD, List.getD_eq_getElem?_getD, List.getElem?_reverse hlt]
  · rw [if_neg hin]
    by_cases hend : i = p + l.length
    · rw [storeText_of_mem _ (by omega), storeText_of_mem _ (by omega),
        List.getD_eq_getElem?_getD, List.getD_eq_getElem?_getD, List.getElem?_eq_none (by omega),
        List.getElem?_eq_none (by omega)]
    · rw [storeText_of_not_mem _ (by omega), storeText_of_not_mem _ (by omega)]

end Buffer
end KudOS
