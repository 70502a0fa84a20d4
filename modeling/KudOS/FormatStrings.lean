import KudOS.NumberRendering
import Mathlib.Data.List.GetD

/-!
# printf

The interpreter of format strings, with the addresses at which it reads the format. A
format is cut into literal characters and conversions; it is complete unless it ends
inside of a conversion.
-/

namespace KudOS.Lib

open Numerals

/-! ## The interpreter -/

/-- What is left when a part of the format was interpreted: the position in the format,
the arguments not yet taken, the characters sent to `putch`, and the addresses of the
format at which a byte was read. -/
structure Printed where
  buf : ℕ
  esp : List ℕ
  text : List UInt8
  reads : List ℕ

/-- The signed value of a word. -/
def signedWord (v : ℕ) : ℤ := if v < 2 ^ 31 then v else v - 2 ^ 32

/-- The conversions other than `#`: the text and the arguments left. -/
def convert (mem : Buffer UInt8) (junk : ℕ → UInt8) (alternate : Bool) (c : UInt8)
    (esp : List ℕ) : Option (List UInt8 × List ℕ) :=
  if c = 0x25 then some ([0x25], esp)
  else if c = 0x78 then do
    let v ← esp.head?
    let text ← if alternate then renderHexPadded junk v else renderHex junk v
    some (text, esp.tail)
  else if c = 0x75 then do
    let text ← renderUnsigned junk (← esp.head?)
    some (text, esp.tail)
  else if c = 0x64 then do
    let text ← renderSigned junk (signedWord (← esp.head?))
    some (text, esp.tail)
  else if c = 0x63 then do
    let v ← esp.head?
    some ([v.toUInt8], esp.tail)
  else if c = 0x73 then do
    let text ← puts mem (← esp.head?)
    some (text, esp.tail)
  else some ([], esp)

/-- `format_char_switch`, with its goto for `#`. -/
def formatCharSwitch (mem : Buffer UInt8) (junk : ℕ → ℕ → UInt8) :
    ℕ → Bool → ℕ → List ℕ → Option Printed
  | 0, _, _, _ => none
  | n + 1, alternate, buf, esp => do
    let c ← mem.load buf
    if c = 0x23 then do
      let r ← formatCharSwitch mem junk n true (buf + 1) esp
      some { r with reads := buf :: r.reads }
    else do
      let (text, esp) ← convert mem (junk buf) alternate c esp
      some ⟨buf, esp, text, [buf]⟩

/-- The loop of `printf`. -/
def printfLoop (mem : Buffer UInt8) (junk : ℕ → ℕ → UInt8) : ℕ → ℕ → List ℕ → Option Printed
  | 0, _, _ => none
  | n + 1, buf, esp => do
    let c ← mem.load buf
    if c = 0 then some ⟨buf, esp, [], [buf]⟩
    else if c = 0x25 then do
      let r ← formatCharSwitch mem junk n false (buf + 1) esp
      let t ← printfLoop mem junk n (r.buf + 1) r.esp
      some { t with text := r.text ++ t.text, reads := buf :: (r.reads ++ t.reads) }
    else do
      let t ← printfLoop mem junk n (buf + 1) esp
      some { t with text := c :: t.text, reads := buf :: t.reads }

/-- `printf`: the value that is returned, and how the format was interpreted. `n` bounds
the number of iterations, `junk` is what the arrays on the stack hold. -/
def printf (mem : Buffer UInt8) (junk : ℕ → ℕ → UInt8) (n format : ℕ) (args : List ℕ) :
    Option (ℤ × Printed) := do
  let r ← printfLoop mem junk n format args
  some ((r.buf : ℤ) - format, r)

/-! ## Formats -/

inductive Piece where
  | literal (c : UInt8)
  | conversion (hashes : ℕ) (c : UInt8)
  deriving DecidableEq, Repr

namespace Piece

def source : Piece → List UInt8
  | literal c => [c]
  | conversion k c => 0x25 :: (List.replicate k 0x23 ++ [c])

def Proper : Piece → Prop
  | literal c => c ≠ 0x25 ∧ c ≠ 0
  | conversion _ c => c ≠ 0x23 ∧ c ≠ 0

instance : DecidablePred Proper
  | literal _ => inferInstanceAs (Decidable (_ ∧ _))
  | conversion _ _ => inferInstanceAs (Decidable (_ ∧ _))

/-- The specifier, if it takes an argument: `x`, `u`, `d`, `c` or `s`. -/
def specifier : Piece → Option UInt8
  | literal _ => none
  | conversion _ c => if c ∈ [0x78, 0x75, 0x64, 0x63, 0x73] then some c else none

end Piece

/-- The characters of a conversion that is not finished: nothing, or `%` and signs `#`. -/
def Unfinished (tail : List UInt8) : Prop :=
  tail = [] ∨ ∃ k, tail = 0x25 :: List.replicate k 0x23

/-- `l` is made of the pieces `ps` and the unfinished conversion `tail`. -/
structure IsFormat (l : List UInt8) (ps : List Piece) (tail : List UInt8) : Prop where
  spelled : l = ps.flatMap Piece.source ++ tail
  proper : ∀ p ∈ ps, p.Proper
  unfinished : Unfinished tail

/-- One word for each conversion that takes an argument; that of `%s` points to a string. -/
def ArgsFit (mem : Buffer UInt8) : List Piece → List ℕ → Prop
  | [], args => args = []
  | p :: ps, args =>
    match p.specifier with
    | none => ArgsFit mem ps args
    | some c => ∃ v rest, args = v :: rest ∧ v < 2 ^ 32 ∧
        (c = 0x73 → ∃ s, mem.Holds 0 v s) ∧ ArgsFit mem ps rest

/-- What a piece prints for its argument. -/
inductive Rendered (mem : Buffer UInt8) : Piece → List ℕ → List UInt8 → Prop
  | literal (c : UInt8) : Rendered mem (.literal c) [] [c]
  | percent (k : ℕ) : Rendered mem (.conversion k 0x25) [] [0x25]
  | hex (v : ℕ) (s : List UInt8) (h : IsNumeral alphabet 16 v s) :
      Rendered mem (.conversion 0 0x78) [v] s
  | paddedHex (k v : ℕ) (s : List UInt8) (h : IsPaddedHex v s) :
      Rendered mem (.conversion (k + 1) 0x78) [v] s
  | unsigned (k v : ℕ) (s : List UInt8) (h : IsNumeral alphabet 10 v s) :
      Rendered mem (.conversion k 0x75) [v] s
  | signed (k v : ℕ) (s : List UInt8) (h : IsSignedNumeral (signedWord v) s) :
      Rendered mem (.conversion k 0x64) [v] s
  | char (k v : ℕ) : Rendered mem (.conversion k 0x63) [v] [v.toUInt8]
  | string (k v : ℕ) (s : List UInt8) (h : mem.Holds 0 v s) :
      Rendered mem (.conversion k 0x73) [v] s
  | unknown (k : ℕ) (c : UInt8) (h : c ∉ [0x25, 0x78, 0x75, 0x64, 0x63, 0x73]) :
      Rendered mem (.conversion k c) [] []

/-- The pieces print one after the other and take their arguments in order. -/
inductive RenderedAll (mem : Buffer UInt8) : List Piece → List ℕ → List UInt8 → Prop
  | nil : RenderedAll mem [] [] []
  | cons {p : Piece} {ps : List Piece} {args rest : List ℕ} {text more : List UInt8}
      (h : Rendered mem p args text) (hs : RenderedAll mem ps rest more) :
      RenderedAll mem (p :: ps) (args ++ rest) (text ++ more)

/-- What `printf` promises for the format `l` at the address `format`, with the
arguments `args` on the stack in front of the words `stack`. -/
def PrintfMeets (mem : Buffer UInt8) (junk : ℕ → ℕ → UInt8) (format : ℕ) (l : List UInt8)
    (ps : List Piece) (args stack : List ℕ) : Prop :=
  ∃ n r, printf mem junk n format (args ++ stack) = some ((l.length : ℤ), r) ∧
    (∀ a ∈ r.reads, a ≤ format + l.length) ∧ r.esp = stack ∧ RenderedAll mem ps args r.text

variable {mem : Buffer UInt8} {junk : ℕ → ℕ → UInt8} {l tail : List UInt8} {ps : List Piece}
  {p : Piece} {n k buf : ℕ} {args stack esp : List ℕ} {c : UInt8}

/-! ## Every string is a format -/

theorem IsFormat.cons (hp : p.Proper) (h : IsFormat l ps tail) :
    IsFormat (p.source ++ l) (p :: ps) tail where
  spelled := by rw [h.spelled, List.flatMap_cons, List.append_assoc]
  proper := by
    intro q hq
    rcases List.mem_cons.mp hq with rfl | hq
    · exact hp
    · exact h.proper q hq
  unfinished := h.unfinished

theorem exists_hashes (l : List UInt8) :
    ∃ k, l = List.replicate k 0x23 ∨ ∃ c l', c ≠ 0x23 ∧ l = List.replicate k 0x23 ++ c :: l' := by
  induction l with
  | nil => exact ⟨0, Or.inl rfl⟩
  | cons d l ih =>
    by_cases hd : d = 0x23
    · subst hd
      obtain ⟨k, rfl | ⟨c, l', hc, rfl⟩⟩ := ih
      · exact ⟨k + 1, Or.inl rfl⟩
      · exact ⟨k + 1, Or.inr ⟨c, l', hc, rfl⟩⟩
    · exact ⟨0, Or.inr ⟨d, l, hd, rfl⟩⟩

theorem exists_isFormat (hl : 0 ∉ l) : ∃ ps tail, IsFormat l ps tail := by
  induction hlen : l.length using Nat.strong_induction_on generalizing l with
  | _ len ih =>
    match l with
    | [] => exact ⟨[], [], rfl, fun p hp => absurd hp List.not_mem_nil, Or.inl rfl⟩
    | c :: l =>
      rw [List.mem_cons, not_or] at hl
      by_cases hpercent : c = 0x25
      · subst hpercent
        obtain ⟨k, rfl | ⟨d, l', hd, rfl⟩⟩ := exists_hashes l
        · exact ⟨[], _, rfl, fun p hp => absurd hp List.not_mem_nil, Or.inr ⟨k, rfl⟩⟩
        · rw [List.mem_append, List.mem_cons, not_or, not_or] at hl
          have hshort : l'.length < len := by
            rw [← hlen]
            simp only [List.length_cons, List.length_append]
            omega
          obtain ⟨ps, tail, h⟩ := ih _ hshort hl.2.2.2 rfl
          have hproper : (Piece.conversion k d).Proper := ⟨hd, fun hzero => hl.2.2.1 hzero.symm⟩
          have hcons := h.cons hproper
          rw [Piece.source, List.cons_append, List.append_assoc] at hcons
          exact ⟨_, tail, hcons⟩
      · have hshort : l.length < len := by
          rw [← hlen]
          exact Nat.lt_succ_self _
        obtain ⟨ps, tail, h⟩ := ih _ hshort hl.2 rfl
        have hproper : (Piece.literal c).Proper := ⟨hpercent, fun hzero => hl.1 hzero.symm⟩
        exact ⟨_, tail, h.cons hproper⟩

/-! ## One conversion -/

theorem convert_none (mem : Buffer UInt8) (j : ℕ → UInt8) (alternate : Bool) (esp : List ℕ)
    (hspec : (Piece.conversion k c).specifier = none) :
    ∃ text, convert mem j alternate c esp = some (text, esp) ∧
      Rendered mem (.conversion k c) [] text := by
  have hnot : c ∉ [0x78, 0x75, 0x64, 0x63, 0x73] := by
    intro hmem
    rw [Piece.specifier, if_pos hmem] at hspec
    cases hspec
  by_cases hpercent : c = 0x25
  · subst hpercent
    exact ⟨_, rfl, .percent k⟩
  · simp only [List.mem_cons, List.not_mem_nil, or_false, not_or] at hnot
    obtain ⟨hx, hu, hd, hch, hs⟩ := hnot
    refine ⟨[], ?_, .unknown k c (by simp [hpercent, hx, hu, hd, hch, hs])⟩
    rw [convert, if_neg hpercent, if_neg hx, if_neg hu, if_neg hd, if_neg hch, if_neg hs]

theorem signedWord_bounds {v : ℕ} (hv : v < 2 ^ 32) :
    -2 ^ 31 ≤ signedWord v ∧ signedWord v < 2 ^ 31 := by
  rw [signedWord]
  split <;> omega

theorem convert_hex (mem : Buffer UInt8) (j : ℕ → UInt8) (k : ℕ) {v : ℕ} (hv : v < 2 ^ 32)
    (esp : List ℕ) : ∃ text, convert mem j (decide (0 < k)) 0x78 (v :: esp) = some (text, esp) ∧
      Rendered mem (.conversion k 0x78) [v] text := by
  cases k with
  | zero =>
    refine ⟨_, ?_, .hex v _ (numeral_isNumeral (by decide) (by decide) v)⟩
    rw [convert, if_neg (by decide), if_pos rfl, List.head?_cons, Option.bind_eq_bind,
      Option.bind_some, if_neg (by decide), renderHex_eq hv]
    rfl
  | succ k =>
    refine ⟨_, ?_, .paddedHex k v _ (padded_isPaddedHex hv)⟩
    rw [convert, if_neg (by decide), if_pos rfl, List.head?_cons, Option.bind_eq_bind,
      Option.bind_some, if_pos (by simp), renderHexPadded_eq hv]
    rfl

theorem convert_some (j : ℕ → UInt8) {v : ℕ} {d : UInt8} (hv : v < 2 ^ 32) (esp : List ℕ)
    (hspec : (Piece.conversion k c).specifier = some d)
    (hstring : d = 0x73 → ∃ s, mem.Holds 0 v s) :
    ∃ text, convert mem j (decide (0 < k)) c (v :: esp) = some (text, esp) ∧
      Rendered mem (.conversion k c) [v] text := by
  obtain ⟨hmem, hcd⟩ := Option.ite_none_right_eq_some.mp hspec
  obtain rfl : c = d := Option.some.inj hcd
  simp only [List.mem_cons, List.not_mem_nil, or_false] at hmem
  rcases hmem with rfl | rfl | rfl | rfl | rfl
  · exact convert_hex mem j k hv esp
  · refine ⟨_, ?_, .unsigned k v _ (numeral_isNumeral (by decide) (by decide) v)⟩
    rw [convert, if_neg (by decide), if_neg (by decide), if_pos rfl, List.head?_cons,
      Option.bind_eq_bind, Option.bind_some, renderUnsigned_eq hv]
    rfl
  · obtain ⟨hlo, hhi⟩ := signedWord_bounds hv
    refine ⟨_, ?_, .signed k v _ (signedNumeral_isSignedNumeral (signedWord v))⟩
    rw [convert, if_neg (by decide), if_neg (by decide), if_neg (by decide), if_pos rfl,
      List.head?_cons, Option.bind_eq_bind, Option.bind_some, renderSigned_eq hlo hhi]
    rfl
  · exact ⟨_, rfl, .char k v⟩
  · obtain ⟨s, hs⟩ := hstring rfl
    refine ⟨s, ?_, .string k v s hs⟩
    rw [convert, if_neg (by decide), if_neg (by decide), if_neg (by decide), if_neg (by decide),
      if_neg (by decide), if_pos rfl, List.head?_cons, Option.bind_eq_bind, Option.bind_some,
      puts_eq hs]
    rfl

/-- The first conversion takes its argument, if any, and leaves the others. -/
theorem convert_fit (j : ℕ → UInt8) (stack : List ℕ)
    (hargs : ArgsFit mem (.conversion k c :: ps) args) :
    ∃ text these those, args = these ++ those ∧ ArgsFit mem ps those ∧
      convert mem j (decide (0 < k)) c (args ++ stack) = some (text, those ++ stack) ∧
      Rendered mem (.conversion k c) these text := by
  rw [ArgsFit] at hargs
  cases hspec : (Piece.conversion k c).specifier with
  | none =>
    rw [hspec] at hargs
    obtain ⟨text, hcv, hrd⟩ := convert_none mem j (decide (0 < k)) (args ++ stack) hspec
    exact ⟨text, [], args, rfl, hargs, hcv, hrd⟩
  | some d =>
    rw [hspec] at hargs
    obtain ⟨v, those, rfl, hv, hstring, hfit⟩ := hargs
    obtain ⟨text, hcv, hrd⟩ := convert_some j hv (those ++ stack) hspec hstring
    exact ⟨text, [v], those, rfl, hfit, hcv, hrd⟩

/-! ## The switch with its goto -/

/-- The goto skips the signs `#`; they are read, and the character behind them. -/
theorem formatCharSwitch_eq {alternate : Bool} (hhash : ∀ i < k, mem.load (buf + i) = some 0x23)
    (hc : mem.load (buf + k) = some c) (hne : c ≠ 0x23) (hn : k < n) :
    formatCharSwitch mem junk n alternate buf esp =
      (convert mem (junk (buf + k)) (alternate || decide (0 < k)) c esp).map fun r =>
        ⟨buf + k, r.2, r.1, List.range' buf (k + 1)⟩ := by
  induction k generalizing n alternate buf with
  | zero =>
    cases n with
    | zero => omega
    | succ n =>
      rw [formatCharSwitch]
      rw [Nat.add_zero] at hc
      rw [hc, Option.bind_eq_bind, Option.bind_some, if_neg hne]
      simp only [Nat.lt_irrefl, decide_false, Bool.or_false, Nat.add_zero]
      cases convert mem (junk buf) alternate c esp <;> rfl
  | succ k ih =>
    cases n with
    | zero => omega
    | succ n =>
      have hfirst := hhash 0 (Nat.succ_pos k)
      rw [Nat.add_zero] at hfirst
      have hindex : ∀ i, buf + (i + 1) = buf + 1 + i := fun i => by omega
      rw [hindex] at hc
      have hhash' : ∀ i < k, mem.load (buf + 1 + i) = some 0x23 := fun i hi => by
        rw [← hindex]
        exact hhash (i + 1) (by omega)
      have hrest : formatCharSwitch mem junk n true (buf + 1) esp = _ :=
        ih hhash' hc (by omega)
      rw [formatCharSwitch, hfirst, Option.bind_eq_bind, Option.bind_some, if_pos rfl, hrest,
        hindex k]
      simp only [Nat.succ_pos, decide_true, Bool.or_true, Bool.true_or]
      cases convert mem (junk (buf + 1 + k)) true c esp <;> rfl

/-- With less fuel than signs `#` there is no result. -/
theorem formatCharSwitch_short {alternate : Bool}
    (hhash : ∀ i < k, mem.load (buf + i) = some 0x23) (hn : n ≤ k) :
    formatCharSwitch mem junk n alternate buf esp = none := by
  induction n generalizing k alternate buf with
  | zero => rfl
  | succ n ih =>
    have hfirst := hhash 0 (by omega)
    rw [Nat.add_zero] at hfirst
    have hhash' : ∀ i < k - 1, mem.load (buf + 1 + i) = some 0x23 := fun i hi => by
      have hindex : buf + 1 + i = buf + (i + 1) := by omega
      rw [hindex]
      exact hhash (i + 1) (by omega)
    have hrest : formatCharSwitch mem junk n true (buf + 1) esp = none := ih hhash' (by omega)
    rw [formatCharSwitch, hfirst, Option.bind_eq_bind, Option.bind_some, if_pos rfl, hrest]
    rfl

/-! ## One piece of the loop -/

theorem printfLoop_literal (hload : mem.load buf = some c) (hc : c ≠ 0x25 ∧ c ≠ 0) :
    printfLoop mem junk (n + 1) buf esp = (printfLoop mem junk n (buf + 1) esp).map fun t =>
      { t with text := c :: t.text, reads := buf :: t.reads } := by
  rw [printfLoop, hload, Option.bind_eq_bind, Option.bind_some, if_neg hc.2, if_neg hc.1]
  cases printfLoop mem junk n (buf + 1) esp <;> rfl

theorem printfLoop_conversion (hload : mem.load buf = some 0x25)
    (hhash : ∀ i < k, mem.load (buf + 1 + i) = some 0x23)
    (hc : mem.load (buf + 1 + k) = some c) (hne : c ≠ 0x23) (hn : k < n) :
    printfLoop mem junk (n + 1) buf esp =
      (convert mem (junk (buf + 1 + k)) (decide (0 < k)) c esp).bind fun r =>
        (printfLoop mem junk n (buf + 1 + k + 1) r.2).map fun t =>
          { t with
            text := r.1 ++ t.text
            reads := buf :: (List.range' (buf + 1) (k + 1) ++ t.reads) } := by
  rw [printfLoop, hload, Option.bind_eq_bind, Option.bind_some, if_neg (by decide), if_pos rfl,
    formatCharSwitch_eq hhash hc hne hn, Bool.false_or]
  cases convert mem (junk (buf + 1 + k)) (decide (0 < k)) c esp with
  | none => rfl
  | some r =>
    simp only [Option.map_some, Option.bind_eq_bind, Option.bind_some]
    cases printfLoop mem junk n (buf + 1 + k + 1) r.2 <;> rfl

/-- The bytes of a conversion in memory, finished or not. -/
theorem load_hashes {s : List UInt8} (h : mem.Holds 0 buf (0x25 :: (List.replicate k 0x23 ++ s))) :
    mem.load buf = some 0x25 ∧ (∀ i < k, mem.load (buf + 1 + i) = some 0x23) ∧
      mem.Holds 0 (buf + 1 + k) s := by
  have htail : mem.Holds 0 (buf + 1) (List.replicate k 0x23 ++ s) :=
    Buffer.Holds.append_right (l := [0x25]) h
  refine ⟨h.load (i := 0) (by simp), fun i hi => ?_, ?_⟩
  · rw [htail.load (by simp; omega), List.getElem_append_left (by simpa using hi),
      List.getElem_replicate]
  · have hs := htail.append_right
    rw [List.length_replicate] at hs
    exact hs

/-! ## The loop -/

/-- A complete format is interpreted up to its terminator. -/
theorem printfLoop_complete (junk : ℕ → ℕ → UInt8) (stack : List ℕ)
    (hmem : mem.Holds 0 buf l) (hf : IsFormat l ps []) (hargs : ArgsFit mem ps args)
    (hn : l.length < n) :
    ∃ r, printfLoop mem junk n buf (args ++ stack) = some r ∧ r.buf = buf + l.length ∧
      r.esp = stack ∧ (∀ a ∈ r.reads, a ≤ buf + l.length) ∧ RenderedAll mem ps args r.text := by
  have hl := hf.spelled
  rw [List.append_nil] at hl
  induction ps generalizing l n buf args with
  | nil =>
    obtain rfl : args = [] := hargs
    obtain rfl : l = [] := hl
    cases n with
    | zero => omega
    | succ n =>
      have hend := hmem.load_end
      rw [List.length_nil, Nat.add_zero] at hend
      refine ⟨⟨buf, stack, [], [buf]⟩, ?_, rfl, rfl, fun a ha => ?_, .nil⟩
      · rw [printfLoop, hend, Option.bind_eq_bind, Option.bind_some, if_pos rfl]
        rfl
      · exact (List.mem_singleton.mp ha).le
  | cons p ps ih =>
    rw [List.flatMap_cons] at hl
    subst hl
    have hproper := hf.proper p List.mem_cons_self
    have hrest : IsFormat (ps.flatMap Piece.source) ps [] :=
      ⟨(List.append_nil _).symm, fun q hq => hf.proper q (List.mem_cons_of_mem p hq), Or.inl rfl⟩
    have hmem' := hmem.append_right
    rw [List.length_append] at hn ⊢
    cases n with
    | zero => omega
    | succ n =>
      cases p with
      | literal c =>
        have hload : mem.load buf = some c := hmem.load (i := 0) (by simp [Piece.source])
        have hlen : (Piece.literal c).source.length = 1 := rfl
        have hfit : ArgsFit mem ps args := hargs
        obtain ⟨r, hr, hbuf, hesp, hreads, htext⟩ := ih (n := n) hmem' hrest hfit (by omega) rfl
        rw [hlen] at hr hbuf hreads ⊢
        refine ⟨{ r with text := c :: r.text, reads := buf :: r.reads }, ?_, ?_, hesp,
          fun a ha => ?_, .cons (.literal c) htext⟩
        · rw [printfLoop_literal hload hproper, hr]
          rfl
        · rw [← Nat.add_assoc]
          exact hbuf
        · rcases List.mem_cons.mp ha with rfl | ha
          · omega
          · have hle := hreads a ha
            omega
      | conversion k c =>
        have hlen : (Piece.conversion k c).source.length = k + 2 := by simp [Piece.source]
        have hspell : (Piece.conversion k c).source ++ ps.flatMap Piece.source =
            0x25 :: (List.replicate k 0x23 ++ c :: ps.flatMap Piece.source) := by
          rw [Piece.source, List.cons_append, List.append_assoc]
          rfl
        rw [hspell] at hmem
        obtain ⟨hload, hhash, hchar⟩ := load_hashes hmem
        have hc : mem.load (buf + 1 + k) = some c := hchar.load (i := 0) (by simp)
        have hnext : buf + 1 + k + 1 = buf + (k + 2) := by omega
        rw [hlen] at hmem' hn ⊢
        obtain ⟨text, these, those, rfl, hfit, hcv, hrd⟩ :=
          convert_fit (junk (buf + 1 + k)) stack hargs
        obtain ⟨r, hr, hbuf, hesp, hreads, htext⟩ := ih (n := n) hmem' hrest hfit (by omega) rfl
        refine ⟨{ r with
          text := text ++ r.text
          reads := buf :: (List.range' (buf + 1) (k + 1) ++ r.reads) }, ?_, ?_, hesp,
          fun a ha => ?_, .cons hrd htext⟩
        · rw [printfLoop_conversion hload hhash hc hproper.1 (by omega), hcv, Option.bind_some,
            hnext, hr]
          rfl
        · rw [← Nat.add_assoc]
          exact hbuf
        · rcases List.mem_cons.mp ha with rfl | ha
          · omega
          rcases List.mem_append.mp ha with ha | ha
          · have hrange := List.mem_range'_1.mp ha
            omega
          · have hle := hreads a ha
            omega

/-! ## Beyond the terminator -/

variable {r : Printed}

/-- The loop reads the byte at which it starts. -/
theorem printfLoop_reads (hr : printfLoop mem junk n buf esp = some r) : buf ∈ r.reads := by
  cases n with
  | zero => cases hr
  | succ n =>
    rw [printfLoop] at hr
    obtain ⟨c, -, hr⟩ := Option.bind_eq_some_iff.mp hr
    split at hr
    · cases hr
      exact List.mem_singleton_self buf
    split at hr
    · obtain ⟨s, -, hr⟩ := Option.bind_eq_some_iff.mp hr
      obtain ⟨t, -, hr⟩ := Option.bind_eq_some_iff.mp hr
      cases hr
      exact List.mem_cons_self
    · obtain ⟨t, -, hr⟩ := Option.bind_eq_some_iff.mp hr
      cases hr
      exact List.mem_cons_self

/-- Behind a conversion the loop goes on with the byte that follows its specifier. -/
theorem printfLoop_behind (hload : mem.load buf = some 0x25)
    (hhash : ∀ i < k, mem.load (buf + 1 + i) = some 0x23)
    (hc : mem.load (buf + 1 + k) = some c) (hne : c ≠ 0x23)
    (hr : printfLoop mem junk (n + 1) buf esp = some r) :
    ∃ esp' t, printfLoop mem junk n (buf + 1 + k + 1) esp' = some t ∧ ∀ a ∈ t.reads, a ∈ r.reads := by
  by_cases hn : k < n
  · rw [printfLoop_conversion hload hhash hc hne hn] at hr
    obtain ⟨u, -, hr⟩ := Option.bind_eq_some_iff.mp hr
    obtain ⟨t, ht, rfl⟩ := Option.map_eq_some_iff.mp hr
    exact ⟨u.2, t, ht, fun a ha =>
      List.mem_cons_of_mem buf (List.mem_append_right _ ha)⟩
  · rw [printfLoop, hload, Option.bind_eq_bind, Option.bind_some, if_neg (by decide), if_pos rfl,
      formatCharSwitch_short hhash (by omega)] at hr
    cases hr

/-- A format that ends inside of a conversion is read beyond its terminator. -/
theorem printfLoop_unfinished
    (hmem : mem.Holds 0 buf (ps.flatMap Piece.source ++ 0x25 :: List.replicate k 0x23))
    (hproper : ∀ p ∈ ps, p.Proper) (hr : printfLoop mem junk n buf esp = some r) :
    buf + (ps.flatMap Piece.source ++ 0x25 :: List.replicate k 0x23).length + 1 ∈ r.reads := by
  induction ps generalizing n buf esp r with
  | nil =>
    cases n with
    | zero => cases hr
    | succ n =>
      have hmem : mem.Holds 0 buf (0x25 :: (List.replicate k 0x23 ++ [])) := by
        rw [List.append_nil]
        exact hmem
      obtain ⟨hload, hhash, hend⟩ := load_hashes hmem
      obtain ⟨esp', t, ht, hreads⟩ := printfLoop_behind hload hhash hend.load_end (by decide) hr
      have hlast : buf + ([].flatMap Piece.source ++ 0x25 :: List.replicate k 0x23).length + 1 =
          buf + 1 + k + 1 := by
        simp
        omega
      rw [hlast]
      exact hreads _ (printfLoop_reads ht)
  | cons p ps ih =>
    rw [List.flatMap_cons, List.append_assoc] at hmem ⊢
    have hmem' := hmem.append_right
    have hproper' : ∀ q ∈ ps, q.Proper := fun q hq => hproper q (List.mem_cons_of_mem p hq)
    have hp := hproper p List.mem_cons_self
    rw [List.length_append, ← Nat.add_assoc]
    cases n with
    | zero => cases hr
    | succ n =>
      cases p with
      | literal c =>
        have hload : mem.load buf = some c := hmem.load (i := 0) (by simp [Piece.source])
        rw [printfLoop_literal hload hp] at hr
        obtain ⟨t, ht, rfl⟩ := Option.map_eq_some_iff.mp hr
        exact List.mem_cons_of_mem buf (ih hmem' hproper' ht)
      | conversion j c =>
        have hlen : buf + (Piece.conversion j c).source.length = buf + 1 + j + 1 := by
          simp [Piece.source]
          omega
        rw [Piece.source, List.cons_append, List.append_assoc] at hmem
        obtain ⟨hload, hhash, hchar⟩ := load_hashes hmem
        have hc : mem.load (buf + 1 + j) = some c := hchar.load (i := 0) (by simp)
        obtain ⟨esp', t, ht, hreads⟩ := printfLoop_behind hload hhash hc hp.1 hr
        rw [hlen] at hmem' ⊢
        exact hreads _ (ih hmem' hproper' ht)

/-! ## The result -/

theorem printfMeets_complete {format : ℕ} (hmem : mem.Holds 0 format l) (hf : IsFormat l ps [])
    (hargs : ArgsFit mem ps args) (stack : List ℕ) :
    PrintfMeets mem junk format l ps args stack := by
  obtain ⟨r, hr, hbuf, hesp, hreads, htext⟩ :=
    printfLoop_complete junk stack hmem hf hargs (Nat.lt_succ_self l.length)
  refine ⟨l.length + 1, r, ?_, hreads, hesp, htext⟩
  have hret : (r.buf : ℤ) - format = l.length := by omega
  rw [printf, hr, Option.bind_eq_bind, Option.bind_some, hret]

theorem not_printfMeets_unfinished {format : ℕ} (hmem : mem.Holds 0 format l)
    (hf : IsFormat l ps tail) (htail : tail ≠ []) :
    ¬ PrintfMeets mem junk format l ps args stack := by
  rintro ⟨n, r, hr, hreads, -⟩
  obtain ⟨k, rfl⟩ := hf.unfinished.resolve_left htail
  rw [hf.spelled] at hmem hreads
  obtain ⟨u, hu, hpair⟩ := Option.bind_eq_some_iff.mp hr
  have hur : u = r := (Prod.mk.inj (Option.some.inj hpair)).2
  have hbeyond := hreads _ (hur ▸ printfLoop_unfinished hmem hf.proper hu)
  omega

/-- Every string is a format, perhaps with an unfinished conversion at its end. For all
arguments that fit it, every stack behind them and every contents of the conversion
buffers: `printf` interprets the format as it promises exactly if it does not end inside
of a conversion. -/
theorem printfMeets_iff {format : ℕ} (hmem : mem.Holds 0 format l) :
    (∃ ps tail, IsFormat l ps tail) ∧
      ∀ ps tail args stack, IsFormat l ps tail → ArgsFit mem ps args →
        (PrintfMeets mem junk format l ps args stack ↔ tail = []) := by
  refine ⟨exists_isFormat hmem.string.no_terminator, fun ps tail args stack hf hargs => ?_⟩
  constructor
  · intro hmeets
    by_contra htail
    exact not_printfMeets_unfinished hmem hf htail hmeets
  · rintro rfl
    exact printfMeets_complete hmem hf hargs stack

/-! ## The text is determined -/

variable {text text' : List UInt8}

/-- A conversion takes its argument or none, as its specifier says. -/
theorem Rendered.length_args (h : Rendered mem p args text) :
    args.length = if p.specifier.isSome then 1 else 0 := by
  cases h with
  | unknown k c hc =>
    have hspec : (Piece.conversion k c).specifier = none := by
      rw [Piece.specifier, if_neg fun hmem => hc (List.mem_cons_of_mem _ hmem)]
    rw [hspec]
    rfl
  | _ => rfl

theorem Rendered.unique (h : Rendered mem p args text) (h' : Rendered mem p args text') :
    text = text' := by
  cases h with
  | literal c =>
    cases h'
    rfl
  | percent k =>
    cases h' with
    | percent => rfl
    | unknown _ _ hc => exact absurd List.mem_cons_self hc
  | hex v s hs =>
    cases h' with
    | hex _ _ hs' => exact hs.unique (by decide) hs'
  | paddedHex k v s hs =>
    cases h' with
    | paddedHex _ _ _ hs' => exact hs.unique hs'
  | unsigned k v s hs =>
    cases h' with
    | unsigned _ _ _ hs' => exact hs.unique (by decide) hs'
  | signed k v s hs =>
    cases h' with
    | signed _ _ _ hs' => exact hs.unique hs'
  | char k v =>
    cases h'
    rfl
  | string k v s hs =>
    cases h' with
    | string _ _ _ hs' => exact Option.some.inj ((puts_eq hs).symm.trans (puts_eq hs'))
  | unknown k c hc =>
    cases h' with
    | percent => exact absurd List.mem_cons_self hc
    | unknown => rfl

theorem RenderedAll.exists_of_cons (h : RenderedAll mem (p :: ps) args text) :
    ∃ these those first more, args = these ++ those ∧ text = first ++ more ∧
      Rendered mem p these first ∧ RenderedAll mem ps those more := by
  cases h with
  | cons hp hs => exact ⟨_, _, _, _, rfl, rfl, hp, hs⟩

/-- Format and arguments leave one text to print. -/
theorem RenderedAll.unique (h : RenderedAll mem ps args text) (h' : RenderedAll mem ps args text') :
    text = text' := by
  induction ps generalizing args text text' with
  | nil =>
    cases h
    cases h'
    rfl
  | cons p ps ih =>
    obtain ⟨these, those, first, more, rfl, rfl, hp, hs⟩ := h.exists_of_cons
    obtain ⟨these', those', first', more', hargs, rfl, hp', hs'⟩ := h'.exists_of_cons
    have hlen : these.length = these'.length := hp.length_args.trans hp'.length_args.symm
    obtain ⟨rfl, rfl⟩ := List.append_inj hargs hlen
    rw [hp.unique hp', ih hs hs']

/-! ## Formats without conversions -/

theorem argsFit_literals (mem : Buffer UInt8) (l : List UInt8) :
    ArgsFit mem (l.map Piece.literal) [] := by
  induction l with
  | nil => rfl
  | cons c l ih => exact ih

theorem renderedAll_literals (mem : Buffer UInt8) (l : List UInt8) :
    RenderedAll mem (l.map Piece.literal) [] l := by
  induction l with
  | nil => exact .nil
  | cons c l ih => exact .cons (.literal c) ih

/-- A format without a percent sign is printed as it is, as the messages of `execute` are. -/
theorem printf_plain {format : ℕ} (hmem : mem.Holds 0 format l) (hl : 0x25 ∉ l)
    (stack : List ℕ) :
    ∃ n r, printf mem junk n format stack = some ((l.length : ℤ), r) ∧ r.text = l := by
  have hspelled : l = (l.map Piece.literal).flatMap Piece.source ++ [] := by
    rw [List.append_nil, List.flatMap_map]
    exact (List.flatMap_singleton' l).symm
  have hproper : ∀ p ∈ l.map Piece.literal, p.Proper := by
    intro p hp
    obtain ⟨c, hc, rfl⟩ := List.mem_map.mp hp
    exact ⟨fun h => hl (h ▸ hc), fun h => hmem.string.no_terminator (h ▸ hc)⟩
  have hmeets : PrintfMeets mem junk format l (l.map Piece.literal) [] stack :=
    printfMeets_complete hmem ⟨hspelled, hproper, Or.inl rfl⟩ (argsFit_literals mem l) stack
  obtain ⟨n, r, hr, -, -, htext⟩ := hmeets
  exact ⟨n, r, hr, htext.unique (renderedAll_literals mem l)⟩

/-! ## Two formats -/

def byteMemory (l : List UInt8) : Buffer UInt8 := ⟨l.length, fun i => l.getD i 0⟩

theorem byteMemory_holds (pre rest : List UInt8) (hl : 0 ∉ l) :
    (byteMemory (pre ++ (l ++ 0 :: rest))).Holds 0 pre.length l where
  string := by
    have hcell : ∀ i, (pre ++ (l ++ 0 :: rest)).getD (pre.length + i) 0 =
        (l ++ 0 :: rest).getD i 0 := fun i => by
      rw [List.getD_append_right _ _ _ _ (by omega), Nat.add_sub_cancel_left]
    refine ⟨fun i hi => ?_, ?_, hl⟩
    · change (pre ++ (l ++ 0 :: rest)).getD (pre.length + i) 0 = l[i]
      rw [hcell, List.getD_append _ _ _ _ hi]
      exact List.getD_eq_getElem l 0 hi
    · change (pre ++ (l ++ 0 :: rest)).getD (pre.length + l.length) 0 = 0
      rw [hcell, List.getD_append_right _ _ _ _ le_rfl, Nat.sub_self]
      rfl
  inside := by
    change _ < (pre ++ (l ++ 0 :: rest)).length
    simp only [List.length_append, List.length_cons]
    omega

/-- A format with a string, a padded number and a percent sign. -/
theorem complete_format :
    PrintfMeets (byteMemory (literal "%s %#x%%" ++ 0 :: (literal "pid" ++ [0])))
      (fun _ _ => 0xFF) 0 (literal "%s %#x%%")
      [.conversion 0 0x73, .literal 0x20, .conversion 1 0x78, .conversion 0 0x25] [9, 14] [] := by
  have hmem := byteMemory_holds [] (l := literal "%s %#x%%") (literal "pid" ++ [0]) (by decide)
  have hname := byteMemory_holds (literal "%s %#x%%" ++ [0]) (l := literal "pid") [] (by decide)
  have hf : IsFormat (literal "%s %#x%%") [.conversion 0 0x73, .literal 0x20,
      .conversion 1 0x78, .conversion 0 0x25] [] := ⟨by decide, by decide, Or.inl rfl⟩
  refine ((printfMeets_iff hmem).2 _ _ _ _ hf ?_).mpr rfl
  exact ⟨9, [14], rfl, by decide, fun _ => ⟨_, hname⟩, 14, [], rfl, by decide,
    fun h => absurd h (by decide), rfl⟩

/-- A percent sign at the end: the string behind the format is printed as well. -/
theorem percent_at_end :
    ¬ PrintfMeets (byteMemory (literal "100%" ++ 0 :: (literal "pid" ++ [0])))
      (fun _ _ => 0xFF) 0 (literal "100%") [.literal 0x31, .literal 0x30, .literal 0x30] [] [] := by
  have hmem := byteMemory_holds [] (l := literal "100%") (literal "pid" ++ [0]) (by decide)
  have hf : IsFormat (literal "100%") [.literal 0x31, .literal 0x30, .literal 0x30] [0x25] :=
    ⟨by decide, by decide, Or.inr ⟨0, rfl⟩⟩
  exact not_printfMeets_unfinished hmem hf (List.cons_ne_nil 0x25 [])

end KudOS.Lib
