import KudOS.CheckedBuffers
import KudOS.KernelState
import KudOS.TextLines
import Mathlib.Data.List.Infix

/-!
# The lines that grep prints

`do_one_file` of `ece391grep.c` reads a file in pieces of at most 1024 bytes into `data`,
prints the lines that contain the search string, and moves an unfinished line to the front
before the next read. The buffer has one more byte, with any contents before the call.
-/

namespace KudOS.Grep

open TextLines

/-! ## The functions of ece391support.c -/

def ece391Strlen (b : Buffer UInt8) (s : ℕ) : Option ℕ := b.lengthLoop 0 s (b.size + 1) 0

/-- `while ('\0' != (*dst++ = *src++))`. -/
def strcpyLoop : ℕ → Buffer UInt8 → ℕ → ℕ → Option (Buffer UInt8)
  | 0, _, _, _ => none
  | n + 1, b, dst, src => do
    let c ← b.load src
    let b ← b.store dst c
    if c = 0 then some b else strcpyLoop n b (dst + 1) (src + 1)

/-- `ece391_strcpy`, within one buffer. -/
def ece391Strcpy (b : Buffer UInt8) (dst src : ℕ) : Option (Buffer UInt8) :=
  strcpyLoop (b.size + 1) b dst src

/-- `ece391_strncmp(b₁ + s₁, b₂ + s₂, n)`. -/
def ece391Strncmp (b₁ b₂ : Buffer UInt8) : ℕ → ℕ → ℕ → Option ℤ
  | 0, _, _ => some 0
  | n + 1, s₁, s₂ => do
    let c₁ ← b₁.load s₁
    let c₂ ← b₂.load s₂
    if c₁ = c₂ then
      if c₁ = 0 then some 0 else ece391Strncmp b₁ b₂ n (s₁ + 1) (s₂ + 1)
    else some (c₁.toNat - c₂.toNat)

/-- The bytes that `ece391_fdputs` writes. -/
def ece391Fdputs (b : Buffer UInt8) (s : ℕ) : Option (List UInt8) := do
  let len ← ece391Strlen b s
  b.loadList s len

/-! ## do_one_file -/

def BUFSIZE : ℕ := 1024

/-- `while (line_end < last && '\n' != data[line_end]) line_end++`. -/
def lineEndLoop (data : Buffer UInt8) (last : ℕ) : ℕ → ℕ → Option ℕ
  | 0, _ => none
  | n + 1, lineEnd =>
    if lineEnd < last then do
      let c ← data.load lineEnd
      if 0x0A ≠ c then lineEndLoop data last n (lineEnd + 1) else some lineEnd
    else some lineEnd

/-- `s[0] == data[check] && 0 == ece391_strncmp(data + check, s, s_len)`, where `s` points
to signed characters and `data` holds unsigned ones. -/
def matchesAt (s data : Buffer UInt8) (sLen check : ℕ) : Option Bool := do
  let c ← s.load 0
  let d ← data.load check
  if c.toInt8.toInt = d.toNat then do
    let r ← ece391Strncmp data s sLen check 0
    some (0 = r)
  else some false

/-- `for (check = line_start; check < line_end; check++)`: what it prints. -/
def searchLoop (s fname data : Buffer UInt8) (sLen lineStart lineEnd : ℕ) :
    ℕ → ℕ → Option (List UInt8)
  | 0, _ => none
  | n + 1, check =>
    if check < lineEnd then do
      if ← matchesAt s data sLen check then do
        let name ← ece391Fdputs fname 0
        let line ← ece391Fdputs data lineStart
        some (name ++ literal ":" ++ line ++ literal "\n")
      else searchLoop s fname data sLen lineStart lineEnd n (check + 1)
    else some []

/-- The inner `while (1)`: the buffer, `last` and what was printed. -/
def lineLoop (s fname : Buffer UInt8) (sLen cnt : ℕ) :
    ℕ → Buffer UInt8 → ℕ → ℕ → Option (Buffer UInt8 × ℕ × List UInt8)
  | 0, _, _, _ => none
  | n + 1, data, last, lineStart => do
    let lineEnd ← lineEndLoop data last (data.size + 1) lineStart
    let c ← data.load lineEnd
    if 0x0A ≠ c ∧ 0 ≠ cnt ∧ lineStart ≠ 0 then do
      let data ← data.store lineEnd 0
      let data ← ece391Strcpy data 0 lineStart
      some (data, last - lineStart, [])
    else do
      let data ← data.store lineEnd 0
      let printed ← searchLoop s fname data sLen lineStart lineEnd (data.size + 1) lineStart
      if lineEnd + 1 ≥ last then some (data, 0, printed)
      else do
        let (data, last, rest) ← lineLoop s fname sLen cnt n data last (lineEnd + 1)
        some (data, last, printed ++ rest)

/-- The results of the system calls. A failed read gives no bytes. -/
structure Calls (σ : Type) where
  opened : ℤ
  read : σ → ℕ → Option (List UInt8) × σ
  closed : ℤ

variable {σ : Type}

/-- The outer `while (1)`: the value returned from inside of it, and what was printed. -/
def fileLoop (calls : Calls σ) (s fname : Buffer UInt8) (sLen : ℕ) :
    ℕ → σ → Buffer UInt8 → ℕ → Option (Option ℤ × List UInt8)
  | 0, _, _, _ => none
  | n + 1, file, data, last =>
    match calls.read file (BUFSIZE - last) with
    | (none, _) => some (some (-1), literal "file read failed\n")
    | (some chunk, file) => do
      let data ← data.storeList last chunk
      let cnt := chunk.length
      let (data, last, printed) ← lineLoop s fname sLen cnt (data.size + 1) data (last + cnt) 0
      if 0 = cnt then some (none, printed)
      else do
        let (result, rest) ← fileLoop calls s fname sLen n file data last
        some (result, printed ++ rest)

/-- `do_one_file(s, fname)` with at most `n` reads: the result and what was printed. -/
def doOneFile (calls : Calls σ) (file : σ) (s fname : Buffer UInt8) (junk : ℕ → UInt8) (n : ℕ) :
    Option (ℤ × List UInt8) := do
  let sLen ← ece391Strlen s 0
  if -1 = calls.opened then some (-1, literal "file open failed\n")
  else do
    match ← fileLoop calls s fname sLen n file ⟨BUFSIZE + 1, junk⟩ 0 with
    | (some result, printed) => some (result, printed)
    | (none, printed) =>
      if -1 = calls.closed then some (-1, printed ++ literal "file close failed\n")
      else some (0, printed)

/-- A regular file is what is left of it. A read gives as many bytes as requested, up to the
end of the file. -/
def regularFile (fd : ℕ) : Calls (List UInt8) where
  opened := fd
  read file n := (some (file.take n), file.drop n)
  closed := 0

/-! ## Strings -/

section Strings

variable {b data : Buffer UInt8} {p q n dst src : ℕ} {x y l : List UInt8}

theorem ece391Strlen_eq (h : b.Holds 0 p l) : ece391Strlen b p = some l.length := by
  have hin := h.inside
  exact h.lengthLoop_eq (Nat.zero_le _) (by omega)

theorem ece391Fdputs_eq (h : b.Holds 0 p l) : ece391Fdputs b p = some l := by
  rw [ece391Fdputs, ece391Strlen_eq h]
  exact h.span.loadList_eq

theorem strcpyLoop_eq (h : b.Holds 0 src l) (hle : dst ≤ src) (hn : l.length < n) :
    strcpyLoop n b dst src = some (b.withText 0 dst l) := by
  induction n generalizing b dst src l with
  | zero => omega
  | succ n ih =>
    have hin := h.inside
    rw [strcpyLoop]
    cases l with
    | nil =>
      rw [Buffer.withText_nil, show b.load src = some 0 from h.load_end, Option.bind_eq_bind,
        Option.bind_some, Buffer.store_of_lt (by omega)]
      rfl
    | cons c l =>
      rw [List.length_cons] at hin hn
      have hc : c ≠ 0 := fun hc => h.string.no_terminator (by simp [hc])
      have hrest : b.Holds 0 (src + 1) l := Buffer.Holds.append_right (l := [c]) h
      have hnext : Buffer.Holds 0 ⟨b.size, Function.update b.cell dst c⟩ (src + 1) l := by
        refine ⟨hrest.string.congr fun i _ => ?_, hrest.inside⟩
        exact Function.update_of_ne (by omega) ..
      rw [show b.load src = some c from h.load (Nat.succ_pos _), Option.bind_eq_bind,
        Option.bind_some, Buffer.store_of_lt (by omega), Option.bind_eq_bind, Option.bind_some,
        if_neg hc, ih hnext (by omega) (by omega), Buffer.withText_cons]

theorem ece391Strcpy_eq (h : b.Holds 0 src l) (hle : dst ≤ src) :
    ece391Strcpy b dst src = some (b.withText 0 dst l) := by
  have hin := h.inside
  exact strcpyLoop_eq h hle (by omega)

/-- The comparison with all of a string says if it is a prefix. -/
theorem ece391Strncmp_eq (hx : data.Holds 0 q x) (hy : b.Holds 0 p y) :
    ∃ r, ece391Strncmp data b y.length q p = some r ∧ (0 = r ↔ y <+: x) := by
  induction y generalizing p q x with
  | nil => exact ⟨0, rfl, by simp⟩
  | cons d y ih =>
    have hd : d ≠ 0 := fun hd => hy.string.no_terminator (by simp [hd])
    have hloadb : b.load p = some d := hy.load (Nat.succ_pos _)
    have hdiff : ∀ c : UInt8, c ≠ d → (0 : ℤ) ≠ c.toNat - d.toNat := by
      intro c hcd heq
      exact hcd (UInt8.toNat_inj.mp (by omega))
    rw [List.length_cons, ece391Strncmp]
    cases x with
    | nil =>
      have hload : data.load q = some 0 := hx.load_end
      refine ⟨_, ?_, iff_of_false (hdiff 0 hd.symm) (by simp)⟩
      rw [hload, hloadb]
      simp only [Option.bind_eq_bind, Option.bind_some]
      rw [if_neg hd.symm]
    | cons c x =>
      have hload : data.load q = some c := hx.load (Nat.succ_pos _)
      rw [hload, hloadb]
      simp only [Option.bind_eq_bind, Option.bind_some]
      by_cases hcd : c = d
      · subst hcd
        rw [if_pos rfl, if_neg hd, List.prefix_cons_inj]
        exact ih (Buffer.Holds.append_right (l := [c]) hx)
          (Buffer.Holds.append_right (l := [c]) hy)
      · rw [if_neg hcd]
        refine ⟨_, rfl, iff_of_false (hdiff c hcd) ?_⟩
        rw [List.cons_prefix_cons]
        exact fun h => hcd h.1.symm

/-- A signed character equals an unsigned one only below 128. -/
theorem toInt8_eq_toNat_iff (c d : UInt8) : d.toInt8.toInt = c.toNat ↔ d < 128 ∧ d = c := by
  have hc := c.toNat_lt
  have hsigned : d.toInt8.toInt =
      if 2 * d.toNat < 2 ^ 8 then (d.toNat : ℤ) else d.toNat - ((2 ^ 8 : ℕ) : ℤ) := rfl
  have h128 : (128 : UInt8).toNat = 128 := rfl
  rw [hsigned, UInt8.lt_iff_toNat_lt, ← UInt8.toNat_inj, h128]
  have hd := d.toNat_lt
  split <;> omega

end Strings

/-! ## One line -/

/-- What is to be printed for a line. -/
def grepLine (s fname p : List UInt8) : List UInt8 :=
  if s <:+: p then fname ++ literal ":" ++ p ++ literal "\n" else []

def grepText (s fname l : List UInt8) : List UInt8 := mapLines 0x0A (grepLine s fname) l

/-- What is printed for it: a search string that begins with a negative character is never
found. -/
def shownLine (s fname p : List UInt8) : List UInt8 :=
  if s.headD 0 < 128 then grepLine s fname p else []

section Line

variable {s fname data : Buffer UInt8} {str name x : List UInt8} {n k q start : ℕ}

theorem shownLine_nil (name : List UInt8) (hne : str ≠ []) : shownLine str name [] = [] := by
  rw [shownLine, grepLine, if_neg (fun h => hne (List.infix_nil.mp h)), ite_self]

theorem matchesAt_eq (hs : s.Holds 0 0 str) (hne : str ≠ []) (hx : data.Holds 0 q x) :
    matchesAt s data str.length q = some (decide (str.headD 0 < 128 ∧ str <+: x)) := by
  obtain ⟨r, hr, hpre⟩ := ece391Strncmp_eq hx hs
  cases str with
  | nil => exact absurd rfl hne
  | cons d str =>
    have hd : d ≠ 0 := fun hd => hs.string.no_terminator (by simp [hd])
    have hload : s.load 0 = some d := hs.load (Nat.succ_pos _)
    rw [matchesAt, hload, Option.bind_eq_bind, Option.bind_some, List.headD_cons]
    cases x with
    | nil =>
      have hfirst : ¬ d.toInt8.toInt = ((0 : UInt8).toNat : ℤ) := fun h =>
        hd ((toInt8_eq_toNat_iff 0 d).mp h).2
      rw [show data.load q = some 0 from hx.load_end, Option.bind_eq_bind, Option.bind_some,
        if_neg hfirst]
      simp
    | cons c x =>
      rw [show data.load q = some c from hx.load (Nat.succ_pos _), Option.bind_eq_bind,
        Option.bind_some, hr]
      simp only [toInt8_eq_toNat_iff, Option.bind_some, hpre]
      split
      · next hfirst => simp [hfirst.1]
      · next hfirst =>
        refine congrArg some (decide_eq_false fun h => hfirst ⟨h.1, ?_⟩).symm
        exact (List.cons_prefix_cons.mp h.2).1

/-- The search from character `k` of the line on. -/
theorem searchLoop_eq (hs : s.Holds 0 0 str) (hne : str ≠ []) (hf : fname.Holds 0 0 name)
    (hx : data.Holds 0 start x) (hk : k ≤ x.length) (hn : x.length < k + n) :
    searchLoop s fname data str.length start (start + x.length) n (start + k) =
      some (if str.headD 0 < 128 ∧ str <:+: x.drop k then
        name ++ literal ":" ++ x ++ literal "\n" else []) := by
  induction n generalizing k with
  | zero => omega
  | succ n ih =>
    rw [searchLoop]
    rcases Nat.lt_or_eq_of_le hk with hlt | rfl
    · have hrest : data.Holds 0 (start + k) (x.drop k) := by
        have happend : data.Holds 0 start (x.take k ++ x.drop k) := by
          rwa [List.take_append_drop]
        have hright := happend.append_right
        rwa [List.length_take_of_le hk] at hright
      rw [if_pos (by omega), matchesAt_eq hs hne hrest, Option.bind_eq_bind, Option.bind_some,
        ece391Fdputs_eq hf, ece391Fdputs_eq hx, Nat.add_assoc, ih hlt (by omega),
        List.drop_eq_getElem_cons hlt]
      by_cases hpre : str.headD 0 < 128 ∧ str <+: x[k] :: x.drop (k + 1)
      · rw [if_pos (decide_eq_true hpre), if_pos ⟨hpre.1, hpre.2.isInfix⟩]
        rfl
      · rw [if_neg (by simpa using hpre)]
        refine congrArg some (if_congr (and_congr_right fun hsign => ?_) rfl rfl)
        rw [List.infix_cons_iff]
        exact (or_iff_right fun h => hpre ⟨hsign, h⟩).symm
    · rw [if_neg (by omega), List.drop_length, if_neg]
      exact fun h => hne (List.infix_nil.mp h.2)

/-- The search prints what it shows of the line. -/
theorem searchLoop_shownLine (hs : s.Holds 0 0 str) (hne : str ≠ []) (hf : fname.Holds 0 0 name)
    (hx : data.Holds 0 start x) (hn : x.length < n) :
    searchLoop s fname data str.length start (start + x.length) n start =
      some (shownLine str name x) := by
  have hsearch := searchLoop_eq hs hne hf hx (Nat.zero_le _) (n := n) (by omega)
  rw [Nat.add_zero, List.drop_zero] at hsearch
  rw [hsearch, shownLine, grepLine, ite_and]

theorem lineEndLoop_eq {last : ℕ} (hx : data.Span start x) (hfree : 0x0A ∉ x)
    (hend : start + x.length = last ∨
      start + x.length < last ∧ data.cell (start + x.length) = 0x0A)
    (hlast : last ≤ data.size) (hn : x.length < n) :
    lineEndLoop data last n start = some (start + x.length) := by
  induction n generalizing start x with
  | zero => omega
  | succ n ih =>
    rw [lineEndLoop]
    cases x with
    | nil =>
      rw [List.length_nil, Nat.add_zero] at hend
      rcases hend with rfl | ⟨hlt, hcell⟩
      · exact if_neg (Nat.lt_irrefl _)
      · rw [if_pos hlt, Buffer.load_of_lt (by omega), Option.bind_eq_bind, Option.bind_some,
          hcell]
        exact if_neg (fun h => h rfl)
    | cons c x =>
      rw [List.length_cons] at hend hn
      have hindex : start + (x.length + 1) = start + 1 + x.length := by omega
      have hc : (0x0A : UInt8) ≠ c := fun hc => hfree (by simp [hc])
      rw [if_pos (by omega), show data.load start = some c from hx.load (Nat.succ_pos _),
        Option.bind_eq_bind, Option.bind_some, if_pos hc, List.length_cons, hindex]
      rw [hindex] at hend
      exact ih (Buffer.Span.right (l := [c]) hx) (fun h => hfree (List.mem_cons_of_mem c h)) hend
        (by omega)

end Line

/-! ## The lines of a piece -/

/-- The pointers that `do_one_file` gets. -/
structure SearchArgs (s fname : Buffer UInt8) (str name : List UInt8) : Prop where
  search : s.Holds 0 0 str
  nonempty : str ≠ []
  fname : fname.Holds 0 0 name

/-- The lines of `ps` and the line `u` without a newline are in the buffer up to `last`. Of
them `x` was handled, and `v` was moved to the front. -/
structure LineResult (cnt start last : ℕ) (data : Buffer UInt8) (ps : List (List UInt8))
    (u : List UInt8) (data' : Buffer UInt8) (x v : List UInt8) : Prop where
  size : data'.size = data.size
  carried : data'.Span 0 v
  joined : x ++ v = joinLines 0x0A ps ++ u
  rest : v = if u ≠ [] ∧ 0 ≠ cnt ∧ start + (joinLines 0x0A ps).length ≠ 0 ∧
    0x0A ≠ data.cell last then u else []
  lastCell : data'.cell 1024 = if last = 1024 ∧ u ≠ [] then 0 else data.cell 1024

section LineLoop

variable {s fname data : Buffer UInt8} {str name p u : List UInt8} {ps : List (List UInt8)}
  {n start last : ℕ}

/-- A terminator is stored behind the line, and the line is searched. -/
theorem searchLoop_terminated (args : SearchArgs s fname str name) (hspan : data.Span start p)
    (hnul : 0 ∉ p) (hin : start + p.length < data.size) :
    searchLoop s fname ⟨data.size, Function.update data.cell (start + p.length) 0⟩ str.length
      start (start + p.length) (data.size + 1) start = some (shownLine str name p) := by
  have hspan' : Buffer.Span ⟨data.size, Function.update data.cell (start + p.length) 0⟩
      start p := by
    refine hspan.congr rfl fun i _ hi => ?_
    exact Function.update_of_ne (by omega) ..
  have hx := hspan'.holds hnul (Function.update_self ..) hin
  exact searchLoop_shownLine args.search args.nonempty args.fname hx (by omega)

/-- The last line of the piece is moved to the front, or searched like the others. -/
theorem lineLoop_unfinished (args : SearchArgs s fname str name) (cnt : ℕ) (hsize : data.size = 1025)
    (hlast : last ≤ 1024) (hspan : data.Span start u) (hend : start + u.length = last)
    (hu : 0x0A ∉ u) (hnul : 0 ∉ u) (hsome : start = 0 ∨ u ≠ []) :
    ∃ data' x v, lineLoop s fname str.length cnt (n + 1) data last start =
        some (data', v.length, mapLines 0x0A (shownLine str name) x) ∧
      LineResult cnt start last data [] u data' x v := by
  have hnil : joinLines (0x0A : UInt8) [] = [] := rfl
  rw [lineLoop, lineEndLoop_eq hspan hu (Or.inl hend) (by omega) (by omega), hend,
    Option.bind_eq_bind, Option.bind_some, Buffer.load_of_lt (by omega), Option.bind_eq_bind,
    Option.bind_some, Buffer.store_of_lt (by omega)]
  set data₁ : Buffer UInt8 := ⟨data.size, Function.update data.cell last 0⟩
  have hlastCell : data₁.cell 1024 = if last = 1024 ∧ u ≠ [] then 0 else data.cell 1024 := by
    by_cases hfull : last = 1024
    · have hne : u ≠ [] := by
        rintro rfl
        rw [List.length_nil] at hend
        exact hsome.elim (fun h => by omega) fun h => h rfl
      rw [if_pos ⟨hfull, hne⟩, ← hfull]
      exact Function.update_self ..
    · have hne : 1024 ≠ last := fun h => hfull h.symm
      rw [if_neg fun h => hfull h.1]
      exact Function.update_of_ne hne ..
  by_cases hcarry : 0x0A ≠ data.cell last ∧ 0 ≠ cnt ∧ start ≠ 0
  · obtain ⟨hc, hcnt, hstart⟩ := hcarry
    have hne : u ≠ [] := hsome.resolve_left hstart
    have hholds : data₁.Holds 0 start u := by
      have hspan₁ : data₁.Span start u := by
        refine hspan.congr rfl fun i _ hi => ?_
        exact Function.update_of_ne (by omega) ..
      refine hspan₁.holds hnul ?_ (by change _ < data.size; omega)
      rw [hend]
      exact Function.update_self ..
    have hin : 0 + u.length < data₁.size := by change _ < data.size; omega
    have hframe : (data₁.withText 0 0 u).cell 1024 = data₁.cell 1024 :=
      storeText_of_not_mem _ (by omega)
    have hlen : last - start = u.length := by omega
    refine ⟨data₁.withText 0 0 u, [], u, ?_, ?_⟩
    · rw [if_pos ⟨hc, hcnt, hstart⟩, Option.bind_eq_bind, Option.bind_some,
        ece391Strcpy_eq hholds (Nat.zero_le _), hlen, mapLines_of_notMem _ List.not_mem_nil,
        shownLine_nil name args.nonempty]
      rfl
    · refine ⟨rfl, (Buffer.withText_holds hnul hin).span, rfl, ?_, hframe.trans hlastCell⟩
      rw [if_pos ⟨hne, hcnt, by rw [hnil]; exact hstart, hc⟩]
  · have hsearch := searchLoop_terminated args hspan hnul (by omega)
    rw [hend] at hsearch
    refine ⟨data₁, u, [], ?_, ?_⟩
    · rw [if_neg hcarry, Option.bind_eq_bind, Option.bind_some, hsearch, Option.bind_eq_bind,
        Option.bind_some, if_pos (by omega), mapLines_of_notMem _ hu]
      rfl
    · refine ⟨rfl, Buffer.span_nil (Nat.zero_le _), List.append_nil u, ?_, hlastCell⟩
      rw [if_neg]
      rintro ⟨-, hcnt, hstart, hc⟩
      exact hcarry ⟨hc, hcnt, hstart⟩

/-- A line with its newline is searched, and the loop goes on behind it. -/
theorem lineLoop_line (args : SearchArgs s fname str name) (cnt n : ℕ) (hsize : data.size = 1025)
    (hlast : last ≤ 1024) (hspan : data.Span start p) (hlt : start + p.length < last)
    (hc : data.cell (start + p.length) = 0x0A) (hp : 0x0A ∉ p) (hnul : 0 ∉ p) :
    lineLoop s fname str.length cnt (n + 1) data last start =
      if start + p.length + 1 ≥ last then
        some (⟨data.size, Function.update data.cell (start + p.length) 0⟩, 0, shownLine str name p)
      else (do
        let (data, last, rest) ← lineLoop s fname str.length cnt n
          ⟨data.size, Function.update data.cell (start + p.length) 0⟩ last (start + p.length + 1)
        some (data, last, shownLine str name p ++ rest)) := by
  rw [lineLoop, lineEndLoop_eq hspan hp (Or.inr ⟨hlt, hc⟩) (by omega) (by omega),
    Option.bind_eq_bind, Option.bind_some, Buffer.load_of_lt (by omega), Option.bind_eq_bind,
    Option.bind_some, hc, if_neg fun h => h.1 rfl, Buffer.store_of_lt (by omega),
    Option.bind_eq_bind, Option.bind_some, searchLoop_terminated args hspan hnul (by omega),
    Option.bind_eq_bind, Option.bind_some]

theorem lineLoop_eq (args : SearchArgs s fname str name) (cnt : ℕ) (hsize : data.size = 1025)
    (hlast : last ≤ 1024) (hspan : data.Span start (joinLines 0x0A ps ++ u))
    (hend : start + (joinLines 0x0A ps ++ u).length = last) (hps : ∀ p ∈ ps, 0x0A ∉ p)
    (hu : 0x0A ∉ u) (hnul : 0 ∉ joinLines 0x0A ps ++ u)
    (hsome : start = 0 ∨ joinLines 0x0A ps ++ u ≠ []) (hn : ps.length < n) :
    ∃ data' x v, lineLoop s fname str.length cnt n data last start =
        some (data', v.length, mapLines 0x0A (shownLine str name) x) ∧
      LineResult cnt start last data ps u data' x v := by
  induction ps generalizing n data start with
  | nil =>
    obtain ⟨m, rfl⟩ := Nat.exists_eq_succ_of_ne_zero (Nat.ne_of_gt (Nat.zero_lt_of_lt hn))
    exact lineLoop_unfinished args cnt hsize hlast hspan hend hu hnul hsome
  | cons p ps ih =>
    obtain ⟨m, rfl⟩ := Nat.exists_eq_succ_of_ne_zero (Nat.ne_of_gt (Nat.zero_lt_of_lt hn))
    have htext : joinLines 0x0A (p :: ps) ++ u = p ++ 0x0A :: (joinLines 0x0A ps ++ u) := by
      rw [joinLines_cons, List.append_assoc]
      rfl
    rw [htext] at hspan hend hnul
    rw [List.length_append, List.length_cons] at hend
    rw [List.length_cons] at hn
    have hp : 0x0A ∉ p := hps p List.mem_cons_self
    have hspan_p : data.Span start p := hspan.left
    have hrest : data.Span (start + p.length) (0x0A :: (joinLines 0x0A ps ++ u)) := hspan.right
    have hc : data.cell (start + p.length) = 0x0A := hrest.cell 0 (Nat.succ_pos _)
    rw [lineLoop_line args cnt m hsize hlast hspan_p (by omega) hc hp
      fun h => hnul (List.mem_append_left _ h)]
    set data₁ : Buffer UInt8 := ⟨data.size, Function.update data.cell (start + p.length) 0⟩
    have hcell : ∀ i, i ≠ start + p.length → data₁.cell i = data.cell i :=
      fun i hi => Function.update_of_ne hi ..
    by_cases hmore : joinLines 0x0A ps ++ u = []
    · obtain ⟨hps_nil, rfl⟩ := List.append_eq_nil_iff.mp hmore
      rw [joinLines_eq_nil_iff] at hps_nil
      subst hps_nil
      rw [hmore, List.length_nil] at hend
      refine ⟨data₁, p ++ [0x0A], [], ?_, ?_⟩
      · rw [if_pos (by omega), mapLines_cons _ hp, mapLines_of_notMem _ List.not_mem_nil,
          shownLine_nil name args.nonempty, List.append_nil]
        rfl
      · refine ⟨rfl, Buffer.span_nil (Nat.zero_le _), ?_, ?_, ?_⟩
        · rw [htext, hmore, List.append_nil]
        · rw [if_neg fun h => h.1 rfl]
        · rw [if_neg fun h => h.2 rfl, hcell 1024 (by omega)]
    · have hpos := List.length_pos_iff.mpr hmore
      have hspan₁ : data₁.Span (start + p.length + 1) (joinLines 0x0A ps ++ u) := by
        refine (Buffer.Span.right (l := [0x0A]) hrest).congr rfl fun i hi _ => ?_
        rw [List.length_singleton] at hi
        exact hcell i (by omega)
      obtain ⟨data', x, v, hloop, hres⟩ := ih (n := m)
        (show data₁.size = 1025 from hsize) hspan₁ (by omega)
        (fun q hq => hps q (List.mem_cons_of_mem p hq))
        (fun h => hnul (List.mem_append_right p (List.mem_cons_of_mem _ h))) (Or.inr hmore)
        (by omega)
      refine ⟨data', p ++ 0x0A :: x, v, ?_, ?_⟩
      · rw [if_neg (by omega), hloop, mapLines_cons _ hp]
        rfl
      · have hlen : start + (joinLines 0x0A (p :: ps)).length =
            start + p.length + 1 + (joinLines 0x0A ps).length := by
          rw [joinLines_cons, List.length_append, List.length_cons]
          omega
        refine ⟨hres.size, hres.carried, ?_, ?_, ?_⟩
        · rw [htext, ← hres.joined, List.append_assoc]
          rfl
        · rw [hlen, hres.rest, hcell last (by omega)]
        · rw [hres.lastCell, hcell 1024 (by omega)]

end LineLoop

end KudOS.Grep
