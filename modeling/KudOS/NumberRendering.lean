import KudOS.CheckedBuffers
import KudOS.KernelState
import KudOS.Numerals

/-!
# Rendering numbers

`strlen`, `strrev`, `puts` and `itoa` of `lib.c`, and the conversions of `printf` that
render a number. All arrays are checked buffers, with any contents before the call.
-/

namespace KudOS.Lib

open Numerals

def strlen (b : Buffer UInt8) (s : ℕ) : Option ℕ := b.lengthLoop 0 s (b.size + 1) 0

def strrev (b : Buffer UInt8) (s : ℕ) : Option (Buffer UInt8) := do
  let len ← strlen b s
  Buffer.reverseLoop s (b.size + 1) b 0 ((len : ℤ) - 1)

/-- The characters that `puts` sends to `putch`. -/
def puts (b : Buffer UInt8) (s : ℕ) : Option (List UInt8) := b.textLoop 0 s (b.size + 1) 0

/-- The alphabet of `itoa`. The array `lookup` has a terminator behind it. -/
def alphabet : List UInt8 := literal "0123456789ABCDEFGHIJKLMNOPQRSTUVWXYZ"

def lookup : Buffer UInt8 := ⟨37, fun i => alphabet.getD i 0⟩

/-- The loop of `itoa`: its digits go to `newbuf` and behind it. -/
def itoaLoop (radix : ℕ) : ℕ → Buffer UInt8 → ℕ → ℕ → Option (Buffer UInt8 × ℕ)
  | 0, _, _, _ => none
  | n + 1, b, newbuf, newval =>
    if newval > 0 then do
      let c ← lookup.load (newval % radix)
      let b ← b.store newbuf c
      itoaLoop radix n b (newbuf + 1) (newval / radix)
    else some (b, newbuf)

/-- `itoa(value, b + buf, radix)`. -/
def itoa (value : ℕ) (b : Buffer UInt8) (buf radix : ℕ) : Option (Buffer UInt8) :=
  if value = 0 then do
    let b ← b.store buf 0x30
    b.store (buf + 1) 0
  else do
    let (b, newbuf) ← itoaLoop radix (b.size + 1) b buf value
    let b ← b.store newbuf 0
    strrev b buf

/-! ## The conversions of printf -/

/-- `%x`, with the contents `junk` of `conv_buf`. -/
def renderHex (junk : ℕ → UInt8) (v : ℕ) : Option (List UInt8) := do
  let b ← itoa v ⟨64, junk⟩ 0 16
  puts b 0

/-- `while (i < 8) conv_buf[i++] = '0'`. -/
def padLoop : ℕ → Buffer UInt8 → ℕ → Option (Buffer UInt8)
  | 0, _, _ => none
  | n + 1, b, i =>
    if i < 8 then do
      let b ← b.store i 0x30
      padLoop n b (i + 1)
    else some b

/-- `%#x`: the digits stand from index 8 on, the zeros in front of index 8. -/
def renderHexPadded (junk : ℕ → UInt8) (v : ℕ) : Option (List UInt8) := do
  let b ← itoa v ⟨64, junk⟩ 8 16
  let startingIndex ← strlen b 8
  let b ← padLoop 9 b startingIndex
  puts b startingIndex

def renderUnsigned (junk : ℕ → UInt8) (v : ℕ) : Option (List UInt8) := do
  let b ← itoa v ⟨36, junk⟩ 0 10
  puts b 0

/-- `%d`. The negation is that of 32-bit words. -/
def renderSigned (junk : ℕ → UInt8) (value : ℤ) : Option (List UInt8) :=
  if value < 0 then do
    let b ← Buffer.store ⟨36, junk⟩ 0 0x2D
    let b ← itoa (-value % 2 ^ 32).toNat b 1 10
    puts b 0
  else do
    let b ← itoa value.toNat ⟨36, junk⟩ 0 10
    puts b 0

/-! ## Strings -/

variable {b : Buffer UInt8} {p v radix : ℕ} {l : List UInt8} {junk : ℕ → UInt8}

theorem strlen_eq (h : b.Holds 0 p l) : strlen b p = some l.length := by
  have hin := h.inside
  exact h.lengthLoop_eq (Nat.zero_le _) (by omega)

theorem puts_eq (h : b.Holds 0 p l) : puts b p = some l := by
  have hin := h.inside
  exact h.textLoop_eq (Nat.zero_le _) (by omega)

theorem strrev_withText (hl : 0 ∉ l) (hp : p + l.length < b.size) :
    strrev (b.withText 0 p l) p = some (b.withText 0 p l.reverse) := by
  have hlen := strlen_eq (Buffer.withText_holds hl hp)
  have hrev : Buffer.reverseLoop p (b.size + 1) (b.withText 0 p l) 0
      (((0 : ℕ) : ℤ) + (l.length : ℤ) - 1) =
        some ((b.withText 0 p l).reversed (p + 0) l.length) :=
    Buffer.reverseLoop_eq (by change _ ≤ b.size; omega) (by omega)
  have hp0 : p + 0 = p := rfl
  rw [hp0, Buffer.withText_reversed, Nat.cast_zero, zero_add] at hrev
  rw [strrev, hlen]
  exact hrev

/-! ## Digits -/

def digitChar (d : ℕ) : UInt8 := alphabet.getD d 0

theorem alphabet_getElem? {d : ℕ} (hd : d < 36) : alphabet[d]? = some (digitChar d) := by
  have hlen : alphabet.length = 36 := by decide
  rw [digitChar, List.getD_eq_getElem?_getD, List.getElem?_eq_getElem (by omega), Option.getD_some]

theorem alphabet_nodup : alphabet.Nodup := by decide

theorem digitChar_ne_zero {d : ℕ} (hd : d < 36) : digitChar d ≠ 0 := by
  have hmem := List.mem_of_getElem? (alphabet_getElem? hd)
  have hall : ∀ c ∈ alphabet, c ≠ 0 := by decide +kernel
  exact hall _ hmem

theorem numeral_isNumeral (hr : 2 ≤ radix) (hr' : radix ≤ 36) (v : ℕ) :
    IsNumeral alphabet radix v (numeral digitChar radix v) :=
  Numerals.numeral_isNumeral hr (fun _ hd => alphabet_getElem? (by omega)) alphabet_nodup v

theorem zero_notMem_numeral (hr : 2 ≤ radix) (hr' : radix ≤ 36) (v : ℕ) :
    0 ∉ numeral digitChar radix v := by
  intro hmem
  obtain ⟨d, hd, hzero⟩ := List.mem_map.mp hmem
  have hlt := digits_lt hr (List.mem_reverse.mp hd)
  exact digitChar_ne_zero (by omega) hzero

theorem length_numeral_le {k : ℕ} (hr : 2 ≤ radix) (hk : 0 < k) (hv : v < radix ^ k) :
    (numeral digitChar radix v).length ≤ k := by
  rw [numeral, List.length_map, List.length_reverse]
  exact length_digits_le hr hk hv

/-! ## itoa -/

/-- The loop and the store behind it leave the digits in reverse order. -/
theorem itoaLoop_eq (hr : 2 ≤ radix) (hr' : radix ≤ 36) {n : ℕ}
    (hp : p + (Nat.digits radix v).length < b.size) (hn : (Nat.digits radix v).length < n) :
    ((itoaLoop radix n b p v).bind fun r => r.1.store r.2 0) =
      some (b.withText 0 p ((Nat.digits radix v).map digitChar)) := by
  induction n generalizing b p v with
  | zero => omega
  | succ n ih =>
    rw [itoaLoop]
    by_cases hv : v > 0
    · have hdigits := Nat.digits_def' (show 1 < radix by omega) hv
      have hmod : v % radix < radix := Nat.mod_lt _ (by omega)
      rw [hdigits, List.length_cons] at hp hn
      rw [if_pos hv, hdigits, List.map_cons, ← Buffer.withText_cons,
        Buffer.load_of_lt (by change _ < 37; omega), Option.bind_eq_bind, Option.bind_some,
        Buffer.store_of_lt (by omega), Option.bind_eq_bind, Option.bind_some]
      exact ih (by change _ < b.size; omega) (by omega)
    · obtain rfl : v = 0 := by omega
      rw [Nat.digits_zero] at hp
      rw [if_neg hv, Option.bind_some, Nat.digits_zero, List.map_nil, Buffer.withText_nil]
      exact Buffer.store_of_lt (by simpa using hp) 0

/-- `itoa` stores the canonical numeral and its terminator. -/
theorem itoa_eq (hr : 2 ≤ radix) (hr' : radix ≤ 36)
    (hp : p + (numeral digitChar radix v).length < b.size) :
    itoa v b p radix = some (b.withText 0 p (numeral digitChar radix v)) := by
  by_cases hv : v = 0
  · subst hv
    have hzero : numeral digitChar radix 0 = [0x30] := rfl
    rw [hzero, List.length_singleton] at hp
    rw [itoa, if_pos rfl, hzero, ← Buffer.withText_cons, Buffer.withText_nil,
      Buffer.store_of_lt (by omega), Option.bind_eq_bind, Option.bind_some]
    exact Buffer.store_of_lt (by exact hp) 0
  · have hnum : numeral digitChar radix v = ((Nat.digits radix v).map digitChar).reverse := by
      rw [numeral, digits, if_neg hv, List.map_reverse]
    have hfree := zero_notMem_numeral hr hr' v
    rw [hnum, List.mem_reverse] at hfree
    have hlen : (numeral digitChar radix v).length = (Nat.digits radix v).length := by
      rw [hnum, List.length_reverse, List.length_map]
    rw [hlen] at hp
    have hloop := itoaLoop_eq (n := b.size + 1) hr hr' hp (by omega)
    obtain ⟨⟨b', newbuf⟩, hb', hstore⟩ := Option.bind_eq_some_iff.mp hloop
    rw [itoa, if_neg hv, hb', hnum, ← strrev_withText hfree (by rw [List.length_map]; exact hp)]
    change (b'.store newbuf 0).bind _ = _
    rw [hstore, Option.bind_some]

theorem itoa_holds (b : Buffer UInt8) (hr : 2 ≤ radix) (hr' : radix ≤ 36)
    (hp : p + (numeral digitChar radix v).length < b.size) :
    (b.withText 0 p (numeral digitChar radix v)).Holds 0 p (numeral digitChar radix v) :=
  Buffer.withText_holds (zero_notMem_numeral hr hr' v) hp

/-! ## The conversions -/

theorem length_decimal_le (hv : v < 2 ^ 32) : (numeral digitChar 10 v).length ≤ 10 :=
  length_numeral_le (by decide) (by decide) (by omega)

theorem length_hex_le (hv : v < 2 ^ 32) : (numeral digitChar 16 v).length ≤ 8 :=
  length_numeral_le (by decide) (by decide) (by omega)

theorem renderUnsigned_eq (hv : v < 2 ^ 32) :
    renderUnsigned junk v = some (numeral digitChar 10 v) := by
  have hlen := length_decimal_le hv
  have hroom : 0 + (numeral digitChar 10 v).length < (⟨36, junk⟩ : Buffer UInt8).size := by
    change _ < 36
    omega
  rw [renderUnsigned, itoa_eq (by decide) (by decide) hroom]
  exact puts_eq (itoa_holds _ (by decide) (by decide) hroom)

theorem renderHex_eq (hv : v < 2 ^ 32) :
    renderHex junk v = some (numeral digitChar 16 v) := by
  have hlen := length_hex_le hv
  have hroom : 0 + (numeral digitChar 16 v).length < (⟨64, junk⟩ : Buffer UInt8).size := by
    change _ < 64
    omega
  rw [renderHex, itoa_eq (by decide) (by decide) hroom]
  exact puts_eq (itoa_holds _ (by decide) (by decide) hroom)

/-- The numeral of the absolute value, behind a minus sign for a negative value. -/
def signedNumeral (value : ℤ) : List UInt8 :=
  if value < 0 then 0x2D :: numeral digitChar 10 value.natAbs
  else numeral digitChar 10 value.natAbs

theorem renderSigned_eq {value : ℤ} (hlo : -2 ^ 31 ≤ value) (hhi : value < 2 ^ 31) :
    renderSigned junk value = some (signedNumeral value) := by
  have hlen : (numeral digitChar 10 value.natAbs).length ≤ 10 := length_decimal_le (by omega)
  have hfree : 0 ∉ numeral digitChar 10 value.natAbs :=
    zero_notMem_numeral (by decide) (by decide) _
  rw [renderSigned, signedNumeral]
  by_cases hneg : value < 0
  · have habs : (-value % 2 ^ 32).toNat = value.natAbs := by omega
    have hroom : 0 + (0x2D :: numeral digitChar 10 value.natAbs).length <
        (⟨36, junk⟩ : Buffer UInt8).size := by
      change _ < 36
      rw [List.length_cons]
      omega
    rw [if_pos hneg, if_pos hneg, habs, Buffer.store_of_lt (by change 0 < 36; decide),
      Option.bind_eq_bind, Option.bind_some,
      itoa_eq (by decide) (by decide) (by change _ < 36; omega), Option.bind_some,
      Buffer.withText_cons]
    exact puts_eq (Buffer.withText_holds (by simp [hfree]) hroom)
  · have habs : value.toNat = value.natAbs := by omega
    have hroom : 0 + (numeral digitChar 10 value.natAbs).length <
        (⟨36, junk⟩ : Buffer UInt8).size := by
      change _ < 36
      omega
    rw [if_neg hneg, if_neg hneg, habs, itoa_eq (by decide) (by decide) hroom]
    exact puts_eq (itoa_holds _ (by decide) (by decide) hroom)

/-! ### The padded form -/

theorem padLoop_eq {n i : ℕ} (hi : i ≤ 8) (hb : 8 ≤ b.size) (hn : 8 - i < n) :
    padLoop n b i = some { b with cell := fun k => if i ≤ k ∧ k < 8 then 0x30 else b.cell k } := by
  induction n generalizing b i with
  | zero => omega
  | succ n ih =>
    rw [padLoop]
    rcases Nat.lt_or_eq_of_le hi with hlt | rfl
    · rw [if_pos hlt, Buffer.store_of_lt (by omega), Option.bind_eq_bind, Option.bind_some,
        ih (by omega) (by exact hb) (by omega)]
      congr 2
      funext k
      by_cases hk : k = i
      · subst hk
        rw [if_neg (by omega), if_pos (by omega)]
        exact Function.update_self ..
      · have hiff : (i + 1 ≤ k ∧ k < 8) ↔ (i ≤ k ∧ k < 8) := by omega
        simp only [hiff, Function.update_of_ne hk]
    · have hcell : (fun k => if 8 ≤ k ∧ k < 8 then 0x30 else b.cell k) = b.cell := by
        funext k
        rw [if_neg (by omega)]
      rw [if_neg (by omega), hcell]

/-- Zeros in front of a string that starts at index 8. -/
theorem holds_padded (h : b.Holds 0 8 l) (hl : l.length ≤ 8) :
    (⟨b.size, fun k => if l.length ≤ k ∧ k < 8 then 0x30 else b.cell k⟩ : Buffer UInt8).Holds 0
      l.length (List.replicate (8 - l.length) 0x30 ++ l) := by
  have hin := h.inside
  have hfree := h.string.no_terminator
  have hlen : (List.replicate (8 - l.length) (0x30 : UInt8) ++ l).length = 8 := by
    rw [List.length_append, List.length_replicate]
    omega
  refine ⟨⟨fun i hi => ?_, ?_, ?_⟩, ?_⟩
  · rw [hlen] at hi
    dsimp only
    by_cases hpad : i < 8 - l.length
    · rw [if_pos (by omega), List.getElem_append_left (by rw [List.length_replicate]; exact hpad),
        List.getElem_replicate]
    · rw [if_neg (by omega), List.getElem_append_right (by rw [List.length_replicate]; omega)]
      have hchar := h.string.char (i - (8 - l.length)) (by omega)
      have hindex : 8 + (i - (8 - l.length)) = l.length + i := by omega
      rw [hindex] at hchar
      simp only [List.length_replicate]
      exact hchar
  · dsimp only
    rw [hlen, if_neg (by omega), Nat.add_comm]
    exact h.string.terminated
  · rw [List.mem_append, List.mem_replicate]
    rintro (⟨-, hzero⟩ | hmem)
    · exact absurd hzero (by decide)
    · exact hfree hmem
  · rw [hlen]
    change _ < b.size
    omega

theorem renderHexPadded_eq (hv : v < 2 ^ 32) : renderHexPadded junk v =
    some (List.replicate (8 - (numeral digitChar 16 v).length) 0x30 ++
      numeral digitChar 16 v) := by
  have hlen := length_hex_le hv
  have hroom : 8 + (numeral digitChar 16 v).length < (⟨64, junk⟩ : Buffer UInt8).size := by
    change _ < 64
    omega
  have hholds := itoa_holds (⟨64, junk⟩ : Buffer UInt8) (by decide) (by decide) hroom
  rw [renderHexPadded, itoa_eq (by decide) (by decide) hroom, Option.bind_eq_bind,
    Option.bind_some, strlen_eq hholds, Option.bind_eq_bind, Option.bind_some,
    padLoop_eq hlen (by change 8 ≤ 64; decide) (by omega), Option.bind_some]
  exact puts_eq (holds_padded hholds hlen)

theorem value_replicate_zero (n : ℕ) (s : List UInt8) :
    value alphabet radix (List.replicate n 0x30 ++ s) = value alphabet radix s := by
  induction n with
  | zero => rfl
  | succ n ih =>
    have hzero : alphabet.idxOf 0x30 = 0 := by decide
    rw [List.replicate_succ, List.cons_append, ← ih, value, List.foldl_cons, hzero]
    simp only [Nat.zero_mul, Nat.add_zero]
    rfl

/-! ## The result -/

/-- An optional minus sign and digits, whose value is `value`. -/
def IsSignedNumeral (value : ℤ) (s : List UInt8) : Prop :=
  if value < 0 then ∃ t, s = 0x2D :: t ∧ IsNumeral alphabet 10 value.natAbs t
  else IsNumeral alphabet 10 value.natAbs s

/-- Eight hexadecimal digits with the value `v`. -/
structure IsPaddedHex (v : ℕ) (s : List UInt8) : Prop where
  length : s.length = 8
  digit : ∀ c ∈ s, c ∈ alphabet.take 16
  value : value alphabet 16 s = v

theorem padded_isPaddedHex (hv : v < 2 ^ 32) :
    IsPaddedHex v (List.replicate (8 - (numeral digitChar 16 v).length) 0x30 ++
      numeral digitChar 16 v) := by
  have hnum : IsNumeral alphabet 16 v (numeral digitChar 16 v) :=
    numeral_isNumeral (by decide) (by decide) v
  have hlen := length_hex_le hv
  refine ⟨?_, fun c hc => ?_, ?_⟩
  · rw [List.length_append, List.length_replicate]
    omega
  · rcases List.mem_append.mp hc with hpad | hdigit
    · rw [(List.mem_replicate.mp hpad).2]
      decide
    · exact hnum.digit c hdigit
  · rw [value_replicate_zero]
    exact hnum.value

theorem signedNumeral_isSignedNumeral (value : ℤ) :
    IsSignedNumeral value (signedNumeral value) := by
  have hnum : IsNumeral alphabet 10 value.natAbs (numeral digitChar 10 value.natAbs) :=
    numeral_isNumeral (by decide) (by decide) _
  rw [IsSignedNumeral, signedNumeral]
  by_cases hneg : value < 0
  · rw [if_pos hneg, if_pos hneg]
    exact ⟨_, rfl, hnum⟩
  · rw [if_neg hneg, if_neg hneg]
    exact hnum

theorem IsSignedNumeral.unique {value : ℤ} {s t : List UInt8} (hs : IsSignedNumeral value s)
    (ht : IsSignedNumeral value t) : s = t := by
  rw [IsSignedNumeral] at hs ht
  by_cases hneg : value < 0
  · rw [if_pos hneg] at hs ht
    obtain ⟨s, rfl, hs⟩ := hs
    obtain ⟨t, rfl, ht⟩ := ht
    rw [hs.unique (by decide) ht]
  · rw [if_neg hneg] at hs ht
    exact hs.unique (by decide) ht

theorem IsPaddedHex.unique {s t : List UInt8} (hs : IsPaddedHex v s) (ht : IsPaddedHex v t) :
    s = t :=
  eq_of_value_eq (by decide) hs.digit ht.digit (hs.length.trans ht.length.symm)
    (hs.value.trans ht.value.symm)

/-- `itoa` renders every word in every radix of the alphabet, wherever there is room for
the result, and the conversions of `printf` render their arguments, whatever their
buffers hold before. -/
theorem number_rendering :
    (∀ v < 2 ^ 32, ∀ radix, 2 ≤ radix → radix ≤ 36 → ∃ s : List UInt8, s.length ≤ 32 ∧
      IsNumeral alphabet radix v s ∧ ∀ (b : Buffer UInt8) (p : ℕ), p + s.length < b.size →
        ∃ b', itoa v b p radix = some b' ∧ b'.Holds 0 p s ∧
          ∀ k, ¬ (p ≤ k ∧ k ≤ p + s.length) → b'.cell k = b.cell k) ∧
    (∀ v < 2 ^ 32, ∀ junk : ℕ → UInt8,
      (∃ s, renderUnsigned junk v = some s ∧ IsNumeral alphabet 10 v s) ∧
      (∃ s, renderHex junk v = some s ∧ IsNumeral alphabet 16 v s) ∧
      ∃ s, renderHexPadded junk v = some s ∧ IsPaddedHex v s) ∧
    ∀ value : ℤ, -2 ^ 31 ≤ value → value < 2 ^ 31 → ∀ junk : ℕ → UInt8,
      ∃ s, renderSigned junk value = some s ∧ IsSignedNumeral value s := by
  refine ⟨fun v hv radix hr hr' => ?_, fun v hv junk => ⟨?_, ?_, ?_⟩,
    fun value hlo hhi junk => ?_⟩
  · have hbound : v < radix ^ 32 := hv.trans_le (Nat.pow_le_pow_left hr 32)
    refine ⟨numeral digitChar radix v, length_numeral_le hr (by decide) hbound,
      numeral_isNumeral hr hr' v, fun b p hroom => ⟨_, itoa_eq hr hr' hroom,
        itoa_holds b hr hr' hroom, fun k hk => storeText_of_not_mem b.cell hk⟩⟩
  · exact ⟨_, renderUnsigned_eq hv, numeral_isNumeral (by decide) (by decide) v⟩
  · exact ⟨_, renderHex_eq hv, numeral_isNumeral (by decide) (by decide) v⟩
  · exact ⟨_, renderHexPadded_eq hv, padded_isPaddedHex hv⟩
  · exact ⟨_, renderSigned_eq hlo hhi, signedNumeral_isSignedNumeral value⟩

/-- The least signed word. -/
theorem least_signed : ∃ s, renderSigned (fun _ => 0xFF) (-2147483648) = some s ∧
    IsSignedNumeral (-2147483648) s :=
  number_rendering.2.2 (-2147483648) (by decide) (by decide) fun _ => 0xFF

end KudOS.Lib
