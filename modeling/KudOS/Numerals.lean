import Mathlib.Data.Nat.Digits.Lemmas

/-!
# Numerals over an alphabet

A numeral is a string over the first `radix` characters of an alphabet, most
significant digit first. It is canonical if it starts with the zero character only as
the numeral of zero.
-/

namespace KudOS.Numerals

variable {α : Type} [DecidableEq α] {alphabet s : List α} {radix v k : ℕ}

def value (alphabet : List α) (radix : ℕ) (s : List α) : ℕ :=
  s.foldl (fun acc c => acc * radix + alphabet.idxOf c) 0

/-- `s` is the canonical numeral of `v`. -/
structure IsNumeral (alphabet : List α) (radix v : ℕ) (s : List α) : Prop where
  nonempty : s ≠ []
  digit : ∀ c ∈ s, c ∈ alphabet.take radix
  leading : s.head? = alphabet.head? → v = 0 ∧ s.length = 1
  value : value alphabet radix s = v

/-- The digits of `v`, the least significant first; zero has one digit. -/
def digits (radix v : ℕ) : List ℕ := if v = 0 then [0] else Nat.digits radix v

omit [DecidableEq α] in
/-- The canonical numeral, computed from the digits. -/
def numeral (digit : ℕ → α) (radix v : ℕ) : List α := (digits radix v).reverse.map digit

theorem digits_lt (hr : 1 < radix) {d : ℕ} (hd : d ∈ digits radix v) : d < radix := by
  rw [digits] at hd
  split at hd
  · rw [List.mem_singleton] at hd
    omega
  · exact Nat.digits_lt_base hr hd

theorem ofDigits_digits (radix v : ℕ) : Nat.ofDigits radix (digits radix v) = v := by
  rw [digits]
  split
  · rw [Nat.ofDigits_singleton]
    omega
  · exact Nat.ofDigits_digits radix v

theorem digits_ne_nil (radix v : ℕ) : digits radix v ≠ [] := by
  rw [digits]
  split
  · exact List.cons_ne_nil 0 []
  · exact Nat.digits_ne_nil_iff_ne_zero.mpr ‹_›

theorem length_digits_le (hr : 1 < radix) (hk : 0 < k) (hv : v < radix ^ k) :
    (digits radix v).length ≤ k := by
  rw [digits]
  split
  · exact hk
  · exact (Nat.digits_length_le_iff hr v).mpr hv

/-- The most significant digit is zero for zero only. -/
theorem getLast_digits (h : (digits radix v).getLast (digits_ne_nil radix v) = 0) : v = 0 := by
  by_contra hv
  have hd : digits radix v = Nat.digits radix v := if_neg hv
  simp only [hd] at h
  exact Nat.getLast_digit_ne_zero radix hv h

/-- Below the radix the characters stand for their digits. -/
theorem value_map {digit : ℕ → α} (hdigit : ∀ d < radix, alphabet.idxOf (digit d) = d)
    {l : List ℕ} (hl : ∀ d ∈ l, d < radix) :
    value alphabet radix (l.reverse.map digit) = Nat.ofDigits radix l := by
  rw [value, List.foldl_map, List.foldl_reverse, Nat.ofDigits_eq_foldr]
  induction l with
  | nil => rfl
  | cons d l ih =>
    rw [List.foldr_cons, List.foldr_cons, ih fun e he => hl e (List.mem_cons_of_mem d he),
      hdigit d (hl d List.mem_cons_self)]
    simp only [Nat.cast_id]
    ring

/-- The characters of the alphabet in their order render the digits. -/
theorem numeral_isNumeral {digit : ℕ → α} (hr : 1 < radix)
    (hchar : ∀ d < radix, alphabet[d]? = some (digit d)) (hnodup : alphabet.Nodup) (v : ℕ) :
    IsNumeral alphabet radix v (numeral digit radix v) := by
  have hidx : ∀ d < radix, alphabet.idxOf (digit d) = d := by
    intro d hd
    obtain ⟨hlt, hget⟩ := List.getElem?_eq_some_iff.mp (hchar d hd)
    rw [← hget]
    exact hnodup.idxOf_getElem d hlt
  have hlast := List.getLast?_eq_some_getLast (digits_ne_nil radix v)
  refine ⟨?_, fun c hc => ?_, fun hhead => ?_, ?_⟩
  · rw [numeral, Ne, List.map_eq_nil_iff, List.reverse_eq_nil_iff]
    exact digits_ne_nil radix v
  · rw [numeral, List.mem_map] at hc
    obtain ⟨d, hd, rfl⟩ := hc
    have hlt := digits_lt hr (List.mem_reverse.mp hd)
    refine List.mem_of_getElem? (i := d) ?_
    rw [List.getElem?_take_of_lt hlt]
    exact hchar d hlt
  · rw [numeral, List.head?_map, List.head?_reverse, hlast, Option.map_some,
      List.head?_eq_getElem?, hchar 0 (by omega)] at hhead
    have hmem := List.getLast_mem (digits_ne_nil radix v)
    have hzero : (digits radix v).getLast (digits_ne_nil radix v) = 0 := by
      rw [← hidx _ (digits_lt hr hmem), Option.some.inj hhead]
      exact hidx 0 (by omega)
    have hv := getLast_digits hzero
    refine ⟨hv, ?_⟩
    rw [numeral, hv]
    rfl
  · rw [numeral, value_map hidx fun d hd => digits_lt hr hd, ofDigits_digits]

/-! ## Uniqueness -/

theorem value_eq_ofDigits (alphabet : List α) (radix : ℕ) (s : List α) :
    value alphabet radix s = Nat.ofDigits radix (s.map fun c => alphabet.idxOf c).reverse := by
  rw [value, Nat.ofDigits_eq_foldr, List.foldr_reverse, List.foldl_map]
  congr 1
  funext acc c
  simp only [Nat.cast_id]
  ring

theorem idxOf_lt_of_mem {d : ℕ} (hs : ∀ c ∈ s, c ∈ alphabet.take radix)
    (hd : d ∈ (s.map fun c => alphabet.idxOf c).reverse) : d < radix := by
  rw [List.mem_reverse, List.mem_map] at hd
  obtain ⟨c, hc, rfl⟩ := hd
  have htake := hs c hc
  exact (List.mem_take_iff_idxOf_lt (List.mem_of_mem_take htake)).mp htake

/-- Strings of digits of one length and one value are equal. -/
theorem eq_of_value_eq {s' : List α} (hr : 1 < radix) (hs : ∀ c ∈ s, c ∈ alphabet.take radix)
    (hs' : ∀ c ∈ s', c ∈ alphabet.take radix) (hlen : s.length = s'.length)
    (h : value alphabet radix s = value alphabet radix s') : s = s' := by
  have hback : ∀ t : List α, (∀ c ∈ t, c ∈ alphabet.take radix) →
      (t.map fun c => alphabet.idxOf c).map (fun i => alphabet[i]?) = t.map some := by
    intro t ht
    rw [List.map_map]
    exact List.map_congr_left fun c hc => List.getElem?_idxOf (List.mem_of_mem_take (ht c hc))
  have hsome : Function.Injective (List.map (some : α → Option α)) :=
    List.map_injective_iff.mpr (Option.some_injective α)
  rw [value_eq_ofDigits, value_eq_ofDigits] at h
  have hdigits := Nat.ofDigits_inj_of_len_eq hr (by simpa using hlen)
    (fun d => idxOf_lt_of_mem hs) (fun d => idxOf_lt_of_mem hs') h
  apply hsome
  rw [← hback s hs, ← hback s' hs', List.reverse_injective hdigits]

/-- A canonical numeral has as many characters as its value has digits. -/
theorem IsNumeral.length_eq (h : IsNumeral alphabet radix v s) (hr : 1 < radix) :
    s.length = (digits radix v).length := by
  by_cases hhead : s.head? = alphabet.head?
  · obtain ⟨rfl, hlen⟩ := h.leading hhead
    exact hlen
  · have hlead : ∀ hne : (s.map fun c => alphabet.idxOf c).reverse ≠ [],
        (s.map fun c => alphabet.idxOf c).reverse.getLast hne ≠ 0 := by
      intro hne hzero
      rw [List.getLast_reverse, List.head_map] at hzero
      have hmem := List.mem_of_mem_take (h.digit _ (List.head_mem h.nonempty))
      have hget := List.getElem?_idxOf hmem
      rw [hzero] at hget
      apply hhead
      rw [List.head?_eq_getElem? (l := alphabet), hget]
      exact List.head?_eq_some_head h.nonempty
    have hdigits := Nat.digits_ofDigits radix hr _ (fun d => idxOf_lt_of_mem h.digit) hlead
    rw [← value_eq_ofDigits, h.value] at hdigits
    have hv : v ≠ 0 := by
      rintro rfl
      rw [Nat.digits_zero] at hdigits
      exact h.nonempty (by simpa using hdigits.symm)
    rw [digits, if_neg hv, hdigits, List.length_reverse, List.length_map]

/-- A value has one canonical numeral. -/
theorem IsNumeral.unique {s' : List α} (hr : 1 < radix) (h : IsNumeral alphabet radix v s)
    (h' : IsNumeral alphabet radix v s') : s = s' :=
  eq_of_value_eq hr h.digit h'.digit ((h.length_eq hr).trans (h'.length_eq hr).symm)
    (h.value.trans h'.value.symm)

end KudOS.Numerals
