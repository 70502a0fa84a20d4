import KudOS.GrepLines

/-!
# The output of grep

The outer loop of `do_one_file` over a regular file. The last byte of the buffer decides
whether a line that fills the buffer goes on. Nothing was stored there before the first such
line.
-/

namespace KudOS.Grep

open TextLines

/-! ## One read -/

/-- The text `t` is in the buffer. Of it `x` was handled, and `v` was moved to the front. -/
structure ReadResult (data : Buffer UInt8) (t : List UInt8) (data' : Buffer UInt8)
    (x v : List UInt8) : Prop where
  size : data'.size = 1025
  carried : data'.Span 0 v
  joined : x ++ v = t
  rest : v = lastLine 0x0A t ∨ v = [] ∧ (t.length < 1024 ∨ data.cell 1024 = 0x0A)
  stray : t.length = 1024 → data.cell 1024 = 0x0A → v = []
  lastCell : data'.cell 1024 =
    if t.length = 1024 ∧ lastLine 0x0A t ≠ [] then 0 else data.cell 1024

section FileLoop

variable {s fname data data' : Buffer UInt8} {str name file t x v rest : List UInt8} {n : ℕ}

theorem ReadResult.length_le (h : ReadResult data t data' x v)
    (hlines : ∀ p ∈ t.splitOn 0x0A, p.length ≤ 1023) : v.length ≤ 1023 := by
  rcases h.rest with rfl | ⟨rfl, -⟩
  · exact hlines _ (lastLine_mem_splitOn _ t)
  · exact Nat.zero_le _

/-- A read stores its bytes behind the carried ones, and not in the last cell. -/
theorem read_stored {c : List UInt8} (hsize : data.size = 1025) (hspan : data.Span 0 v)
    (hlen : v.length + c.length ≤ 1024) :
    ∃ data₁ : Buffer UInt8, data.storeList v.length c = some data₁ ∧ data₁.size = 1025 ∧
      data₁.Span 0 (v ++ c) ∧ data₁.cell 1024 = data.cell 1024 := by
  obtain ⟨data₁, hstore, hsize₁, hchunk, hframe⟩ :=
    Buffer.storeList_eq (b := data) (p := v.length) (l := c) (by omega)
  refine ⟨data₁, hstore, hsize₁.trans hsize, ?_, hframe 1024 (by omega)⟩
  apply Buffer.Span.append
  · exact hspan.congr hsize₁ fun i _ hi => hframe i (by omega)
  · rwa [Nat.zero_add]

/-- A read, and the lines that it completes. -/
theorem fileLoop_step (args : SearchArgs s fname str name) (hsize : data.size = 1025)
    (hspan : data.Span 0 v) (hvlen : v.length ≤ 1023) (hnul : 0 ∉ v ++ file)
    (hlines : ∀ p ∈ (v ++ file).splitOn 0x0A, p.length ≤ 1023) (fd n : ℕ) :
    ∃ data' x v', ReadResult data (v ++ file.take (1024 - v.length)) data' x v' ∧
      (file = [] → v' = []) ∧
      fileLoop (regularFile fd) s fname str.length (n + 1) file data v.length =
        if file = [] then some (none, mapLines 0x0A (shownLine str name) x)
        else (do
          let (result, rest) ← fileLoop (regularFile fd) s fname str.length n
            (file.drop (1024 - v.length)) data' v'.length
          some (result, mapLines 0x0A (shownLine str name) x ++ rest)) := by
  set chunk := file.take (1024 - v.length) with hchunk
  have hchunklen : chunk.length = min (1024 - v.length) file.length := List.length_take
  have hempty : 0 = chunk.length ↔ file = [] := by
    rw [← List.length_eq_zero_iff]
    omega
  have hfile : v ++ file = (v ++ chunk) ++ file.drop (1024 - v.length) := by
    rw [List.append_assoc, List.take_append_drop]
  rw [hfile] at hlines hnul
  obtain ⟨ps, u, htext⟩ := exists_isText 0x0A (v ++ chunk)
  have hu : u.length ≤ 1023 := by
    have hlast := length_le_left hlines _ (lastLine_mem_splitOn _ _)
    rwa [htext.lastLine_eq] at hlast
  obtain ⟨data₁, hstore, hsize₁, hspan₁, hlast⟩ := read_stored (c := chunk) hsize hspan
    (by omega)
  rw [htext.joined] at hspan₁
  have hnul₁ : 0 ∉ joinLines 0x0A ps ++ u := by
    rw [← htext.joined]
    exact fun h => hnul (List.mem_append_left _ h)
  have hlen : (v ++ chunk).length = v.length + chunk.length := List.length_append
  have hjoined : (joinLines 0x0A ps ++ u).length = v.length + chunk.length := by
    rw [← hlen, ← htext.joined]
  have hparts := hjoined
  rw [List.length_append] at hparts
  have hps := length_le_length_joinLines 0x0A ps
  obtain ⟨data', x, v', hloop, hres⟩ := lineLoop_eq args chunk.length (n := data₁.size + 1)
    hsize₁ (by omega) hspan₁ ((Nat.zero_add _).trans hjoined) htext.complete htext.unfinished
    hnul₁ (Or.inl rfl) (by omega)
  refine ⟨data', x, v', ?_, fun hnil => ?_, ?_⟩
  · refine ⟨hres.size.trans hsize₁, hres.carried, hres.joined.trans htext.joined.symm, ?_, ?_, ?_⟩
    · rw [htext.lastLine_eq, hres.rest]
      by_cases hcarry : u ≠ [] ∧ 0 ≠ chunk.length ∧ 0 + (joinLines 0x0A ps).length ≠ 0 ∧
          0x0A ≠ data₁.cell (v.length + chunk.length)
      · exact Or.inl (if_pos hcarry)
      rw [if_neg hcarry]
      by_cases hnil : u = []
      · exact Or.inl hnil.symm
      refine Or.inr ⟨rfl, ?_⟩
      by_contra hcontra
      rw [not_or] at hcontra
      have hfull : v.length + chunk.length = 1024 := by omega
      refine hcarry ⟨hnil, by omega, ?_, ?_⟩
      · omega
      · rw [hfull, hlast]
        exact fun h => hcontra.2 h.symm
    · intro hfull hstray
      rw [hres.rest, if_neg]
      rintro ⟨-, -, -, hc⟩
      rw [hlen] at hfull
      rw [hfull, hlast] at hc
      exact hc hstray.symm
    · rw [hres.lastCell, htext.lastLine_eq, hlen, hlast]
  · rw [hres.rest, if_neg]
    exact fun h => h.2.1 (hempty.mpr hnil)
  · have hread : (regularFile fd).read file (BUFSIZE - v.length) =
        (some chunk, file.drop (1024 - v.length)) := rfl
    rw [fileLoop, hread]
    dsimp only
    rw [hstore, Option.bind_eq_bind, Option.bind_some, hloop, Option.bind_eq_bind,
      Option.bind_some]
    by_cases hnil : file = []
    · rw [if_pos (hempty.mpr hnil), if_pos hnil]
    · rw [if_neg (fun h => hnil (hempty.mp h)), if_neg hnil]

/-- The outputs for `x` and for what is still to be handled make up the output for the text,
unless an unfinished line was handled. -/
theorem ReadResult.mapLines_eq {f : List UInt8 → List UInt8} (hf : f [] = [])
    (h : ReadResult data t data' x v) (hcell : t.length < 1024 ∨ data.cell 1024 ≠ 0x0A)
    (hrest : t.length < 1024 → rest = []) :
    mapLines 0x0A f x ++ mapLines 0x0A f (v ++ rest) = mapLines 0x0A f (t ++ rest) := by
  rcases h.rest with hv | ⟨rfl, hstray⟩
  · have hx : lastLine 0x0A x = [] := by
      have hjoined := h.joined
      rw [hv] at hjoined
      exact lastLine_eq_nil hjoined
    rw [← mapLines_append_of_ended f hf hx, ← List.append_assoc, h.joined]
  · have hshort : t.length < 1024 := by
      rcases hcell with hlt | hne
      · exact hlt
      · exact hstray.resolve_right hne
    have hx : x = t := by rw [← h.joined, List.append_nil]
    rw [hrest hshort, hx, List.append_nil, List.append_nil,
      mapLines_of_notMem f List.not_mem_nil, hf, List.append_nil]

/-- Without a stray newline behind the data every line is handled as a whole. -/
theorem fileLoop_clean (args : SearchArgs s fname str name) (hsize : data.size = 1025)
    (hspan : data.Span 0 v) (hvlen : v.length ≤ 1023) (hnul : 0 ∉ v ++ file)
    (hlines : ∀ p ∈ (v ++ file).splitOn 0x0A, p.length ≤ 1023)
    (hcell : v.length + file.length < 1024 ∨ data.cell 1024 ≠ 0x0A) (fd : ℕ)
    (hn : file.length < n) :
    fileLoop (regularFile fd) s fname str.length n file data v.length =
      some (none, mapLines 0x0A (shownLine str name) (v ++ file)) := by
  induction n generalizing file data v with
  | zero => omega
  | succ n ih =>
    obtain ⟨data', x, v', hres, hdone, hloop⟩ :=
      fileLoop_step args hsize hspan hvlen hnul hlines fd n
    rw [hloop]
    by_cases hnil : file = []
    · have hjoined := hres.joined
      rw [hdone hnil, hnil, List.take_nil, List.append_nil, List.append_nil] at hjoined
      rw [if_pos hnil, hjoined, hnil, List.append_nil]
    rw [if_neg hnil]
    have hfile : (v ++ file.take (1024 - v.length)) ++ file.drop (1024 - v.length) = v ++ file := by
      rw [List.append_assoc, List.take_append_drop]
    have hlen : (v ++ file.take (1024 - v.length)).length = min 1024 (v.length + file.length) := by
      rw [List.length_append, List.length_take]
      omega
    have hpos := List.length_pos_iff.mpr hnil
    have hdrop : (file.drop (1024 - v.length)).length = file.length - (1024 - v.length) :=
      List.length_drop
    have hwhole : x ++ (v' ++ file.drop (1024 - v.length)) = v ++ file := by
      rw [← List.append_assoc, hres.joined, hfile]
    have hlines' := hlines
    rw [← hwhole] at hlines' hnul
    rw [← hfile] at hlines
    have hv' := hres.length_le (length_le_left hlines)
    have hshort : (v ++ file.take (1024 - v.length)).length < 1024 →
        file.drop (1024 - v.length) = [] := by
      intro hlt
      rw [← List.length_eq_zero_iff]
      omega
    have hcell' : v'.length + (file.drop (1024 - v.length)).length < 1024 ∨
        data'.cell 1024 ≠ 0x0A := by
      rcases hcell with hlt | hne
      · have hjoined := congrArg List.length hres.joined
        rw [List.length_append] at hjoined
        exact Or.inl (by omega)
      · refine Or.inr ?_
        rw [hres.lastCell]
        split
        · decide
        · exact hne
    have hmap := hres.mapLines_eq (shownLine_nil name args.nonempty)
      (hcell.imp_left fun hlt => by omega) hshort
    rw [ih hres.size hres.carried hv' (fun h => hnul (List.mem_append_right x h))
      (length_le_right hlines') hcell' (by omega), ← hfile, ← hmap]
    rfl

/-! ## A stray newline behind the data -/

/-- What was read when the buffer was full and did not end in a newline for the first time. -/
def StrayCut (a : List UInt8) : Prop :=
  ∃ (cs : List (List UInt8)) (d : List UInt8), (∀ c ∈ cs, c.length = BUFSIZE ∧ lastLine 0x0A c = []) ∧
    d.length = BUFSIZE ∧ lastLine 0x0A d ≠ [] ∧ a = cs.flatten ++ d

theorem StrayCut.lastLine_ne_nil {a : List UInt8} (h : StrayCut a) : lastLine 0x0A a ≠ [] := by
  obtain ⟨cs, d, -, -, hd, rfl⟩ := h
  exact lastLine_append_ne_nil hd

theorem fileLoop_full {c : List UInt8} (args : SearchArgs s fname str name)
    (hsize : data.size = 1025) (hstray : data.cell 1024 = 0x0A) (hc : c.length = 1024)
    (hnul : 0 ∉ c ++ rest) (hlines : ∀ p ∈ (c ++ rest).splitOn 0x0A, p.length ≤ 1023)
    (fd n : ℕ) :
    ∃ data' : Buffer UInt8, data'.size = 1025 ∧
      data'.cell 1024 = (if lastLine 0x0A c ≠ [] then 0 else 0x0A) ∧
      fileLoop (regularFile fd) s fname str.length (n + 1) (c ++ rest) data 0 =
        (do
          let (result, printed) ← fileLoop (regularFile fd) s fname str.length n rest data' 0
          some (result, mapLines 0x0A (shownLine str name) c ++ printed)) := by
  obtain ⟨data', x, v, hres, -, hloop⟩ := fileLoop_step (v := []) args hsize
    (Buffer.span_nil (Nat.zero_le _)) (Nat.zero_le _) (show 0 ∉ [] ++ (c ++ rest) from hnul)
    hlines fd n
  have htake : (c ++ rest).take (1024 - ([] : List UInt8).length) = c := List.take_left' hc
  have hdrop : (c ++ rest).drop (1024 - ([] : List UInt8).length) = rest := List.drop_left' hc
  rw [htake, List.nil_append] at hres
  rw [hdrop] at hloop
  have hv : v = [] := hres.stray hc hstray
  have hx : x = c := by rw [← hres.joined, hv, List.append_nil]
  have hne : c ++ rest ≠ [] := by
    intro hnil
    rw [(List.append_eq_nil_iff.mp hnil).1] at hc
    simp at hc
  rw [if_neg hne, hv, hx] at hloop
  refine ⟨data', hres.size, ?_, hloop⟩
  rw [hres.lastCell, hstray]
  exact if_congr (and_iff_right hc) rfl rfl

/-- The line at the first cut is handled as two lines. -/
theorem fileLoop_cut {a b : List UInt8} (args : SearchArgs s fname str name)
    (hsize : data.size = 1025) (hstray : data.cell 1024 = 0x0A) (ha : StrayCut a)
    (hnul : 0 ∉ a ++ b) (hlines : ∀ p ∈ (a ++ b).splitOn 0x0A, p.length ≤ 1023)
    (fd : ℕ) (hn : (a ++ b).length < n) :
    fileLoop (regularFile fd) s fname str.length n (a ++ b) data 0 =
      some (none, mapLines 0x0A (shownLine str name) a ++
        mapLines 0x0A (shownLine str name) b) := by
  obtain ⟨cs, d, hcs, hd, hopen, rfl⟩ := ha
  obtain ⟨m, rfl⟩ := Nat.exists_eq_succ_of_ne_zero (Nat.ne_of_gt (Nat.zero_lt_of_lt hn))
  induction cs generalizing data m with
  | nil =>
    rw [List.flatten_nil, List.nil_append] at hnul hlines hn ⊢
    rw [List.length_append] at hn
    obtain ⟨data', hsize', hcell, hloop⟩ :=
      fileLoop_full args hsize hstray hd hnul hlines fd m
    rw [if_pos hopen] at hcell
    have hpos : 0 < d.length := by rw [hd]; decide
    have hrest := fileLoop_clean (v := []) (n := m) args hsize'
      (Buffer.span_nil (Nat.zero_le _)) (Nat.zero_le _)
      (fun h => hnul (List.mem_append_right d h)) (length_le_right hlines)
      (Or.inr (by rw [hcell]; decide)) fd (by omega)
    rw [hloop, show fileLoop _ _ _ _ m b data' 0 = _ from hrest]
    rfl
  | cons c cs ih =>
    obtain ⟨hc, hended⟩ := hcs c List.mem_cons_self
    have hfile : (c :: cs).flatten ++ d ++ b = c ++ (cs.flatten ++ d ++ b) := by
      simp only [List.flatten_cons, List.append_assoc]
    rw [hfile] at hnul hlines hn ⊢
    rw [List.length_append] at hn
    obtain ⟨data', hsize', hcell, hloop⟩ :=
      fileLoop_full args hsize hstray hc hnul hlines fd m
    rw [if_neg (fun h => h hended)] at hcell
    have hpos : 0 < c.length := by rw [hc]; decide
    obtain ⟨k, rfl⟩ := Nat.exists_eq_succ_of_ne_zero (n := m) (by omega)
    rw [hloop, ih hsize' hcell (fun q hq => hcs q (List.mem_cons_of_mem c hq))
      (fun h => hnul (List.mem_append_right c h)) (length_le_right hlines) k (by omega),
      List.flatten_cons, List.append_assoc,
      mapLines_append_of_ended _ (shownLine_nil name args.nonempty) hended, List.append_assoc]
    rfl

/-- Without a cut the stray newline does not matter. -/
theorem fileLoop_uncut (args : SearchArgs s fname str name) (hsize : data.size = 1025)
    (hstray : data.cell 1024 = 0x0A) (hcut : ¬ ∃ a b, file = a ++ b ∧ StrayCut a)
    (hnul : 0 ∉ file) (hlines : ∀ p ∈ file.splitOn 0x0A, p.length ≤ 1023)
    (fd : ℕ) (hn : file.length < n) :
    fileLoop (regularFile fd) s fname str.length n file data 0 =
      some (none, mapLines 0x0A (shownLine str name) file) := by
  induction n generalizing file data with
  | zero => omega
  | succ n ih =>
    by_cases hlt : file.length < 1024
    · exact fileLoop_clean (v := []) args hsize (Buffer.span_nil (Nat.zero_le _))
        (Nat.zero_le _) hnul hlines (Or.inl (by rw [List.length_nil]; omega)) fd hn
    obtain ⟨c, rest, rfl, hc⟩ : ∃ c rest, file = c ++ rest ∧ c.length = 1024 :=
      ⟨file.take 1024, file.drop 1024, (List.take_append_drop 1024 file).symm,
        List.length_take_of_le (by omega)⟩
    have hended : lastLine 0x0A c = [] := by
      by_contra hopen
      exact hcut ⟨c, rest, rfl, [], c, by simp, hc, hopen, rfl⟩
    have hcut' : ¬ ∃ a b, rest = a ++ b ∧ StrayCut a := by
      rintro ⟨a, b, rfl, cs, d, hcs, hd, hopen, rfl⟩
      refine hcut ⟨c ++ (cs.flatten ++ d), b, by rw [List.append_assoc c], c :: cs, d, ?_, hd,
        hopen, by rw [List.flatten_cons, List.append_assoc]⟩
      intro q hq
      rcases List.mem_cons.mp hq with rfl | hq
      · exact ⟨hc, hended⟩
      · exact hcs q hq
    obtain ⟨data', hsize', hcell, hloop⟩ :=
      fileLoop_full args hsize hstray hc hnul hlines fd n
    rw [if_neg (fun h => h hended)] at hcell
    rw [List.length_append] at hn
    rw [hloop, ih hsize' hcell hcut' (fun h => hnul (List.mem_append_right c h))
      (length_le_right hlines) (by omega),
      mapLines_append_of_ended _ (shownLine_nil name args.nonempty) hended]
    rfl

end FileLoop

/-! ## do_one_file -/

/-- Every matching line is printed once, in the order of the file. -/
def GrepMeets (junk : ℕ → UInt8) (s fname : Buffer UInt8) (fd : ℕ) (str name l : List UInt8) :
    Prop :=
  ∃ N, ∀ n ≥ N, doOneFile (regularFile fd) l s fname junk n = some (0, grepText str name l)

/-- The first full buffer ends inside of a matching line, and the byte behind it is a stray
newline. -/
def StrayNewline (junk : ℕ → UInt8) (str l : List UInt8) : Prop :=
  junk BUFSIZE = 0x0A ∧ ∃ a b, l = a ++ b ∧ StrayCut a ∧ firstLine 0x0A b ≠ [] ∧
    str <:+: lastLine 0x0A a ++ firstLine 0x0A b

/-- A line contains the search string, which begins with a negative character. -/
def NegativeMatch (str l : List UInt8) : Prop :=
  128 ≤ str.headD 0 ∧ ∃ p ∈ l.splitOn 0x0A, str <:+: p

section DoOneFile

variable {s fname : Buffer UInt8} {str name l a b out : List UInt8} {junk : ℕ → UInt8}
  {fd n : ℕ}

theorem doOneFile_of_fileLoop (args : SearchArgs s fname str name)
    (h : fileLoop (regularFile fd) s fname str.length n l ⟨BUFSIZE + 1, junk⟩ 0 =
      some (none, out)) :
    doOneFile (regularFile fd) l s fname junk n = some (0, out) := by
  have hopened : ¬ (-1 : ℤ) = (regularFile fd).opened := by
    change ¬ (-1 : ℤ) = fd
    omega
  rw [doOneFile, ece391Strlen_eq args.search, Option.bind_eq_bind, Option.bind_some,
    if_neg hopened, h]
  rfl

/-- The output does not depend on the number of reads that were allowed. -/
theorem grepMeets_iff_of_run
    (h : ∀ n > l.length, doOneFile (regularFile fd) l s fname junk n = some (0, out)) :
    GrepMeets junk s fname fd str name l ↔ out = grepText str name l := by
  constructor
  · rintro ⟨N, hN⟩
    have hrun := (h (N + l.length + 1) (by omega)).symm.trans (hN _ (by omega))
    exact (Prod.mk.inj (Option.some.inj hrun)).2
  · rintro rfl
    exact ⟨l.length + 1, fun n hn => h n (by omega)⟩

theorem doOneFile_cut (args : SearchArgs s fname str name) (hstray : junk BUFSIZE = 0x0A)
    (ha : StrayCut a) (hnul : 0 ∉ a ++ b) (hlines : ∀ p ∈ (a ++ b).splitOn 0x0A, p.length ≤ 1023)
    (hn : (a ++ b).length < n) :
    doOneFile (regularFile fd) (a ++ b) s fname junk n =
      some (0, mapLines 0x0A (shownLine str name) a ++ mapLines 0x0A (shownLine str name) b) :=
  doOneFile_of_fileLoop args (fileLoop_cut args rfl hstray ha hnul hlines fd hn)

theorem doOneFile_uncut (args : SearchArgs s fname str name) (hnul : 0 ∉ l)
    (hlines : ∀ p ∈ l.splitOn 0x0A, p.length ≤ 1023)
    (hcut : ¬ (junk BUFSIZE = 0x0A ∧ ∃ a b, l = a ++ b ∧ StrayCut a)) (hn : l.length < n) :
    doOneFile (regularFile fd) l s fname junk n =
      some (0, mapLines 0x0A (shownLine str name) l) := by
  refine doOneFile_of_fileLoop args ?_
  by_cases hstray : junk BUFSIZE = 0x0A
  · exact fileLoop_uncut args rfl hstray (fun h => hcut ⟨hstray, h⟩) hnul hlines fd hn
  · exact fileLoop_clean (v := []) args rfl (Buffer.span_nil (Nat.zero_le _)) (Nat.zero_le _)
      hnul hlines (Or.inr hstray) fd hn

end DoOneFile

/-! ## The output and the matching lines -/

section Output

variable {str a b l : List UInt8}

theorem grepLine_length (str name p : List UInt8) : (grepLine str name p).length =
    if str <:+: p then name.length + 1 + p.length + 1 else 0 := by
  rw [grepLine]
  split
  · simp only [List.length_append]
    rfl
  · rfl

theorem grepLine_nil (name : List UInt8) (hne : str ≠ []) : grepLine str name [] = [] :=
  if_neg fun h => hne (List.infix_nil.mp h)

/-- Two parts of a line are printed like the whole line only if there is nothing to print. -/
theorem grepLine_append_eq_iff (name : List UInt8) (hne : str ≠ []) (ha : a ≠ []) :
    grepLine str name a ++ grepLine str name b = grepLine str name (a ++ b) ↔
      b = [] ∨ ¬ str <:+: a ++ b := by
  by_cases hmatch : str <:+: a ++ b
  · rw [or_iff_left (not_not_intro hmatch)]
    constructor
    · intro h
      have hpos := List.length_pos_iff.mpr ha
      have hsum := congrArg List.length h
      rw [List.length_append, grepLine_length, grepLine_length, grepLine_length, if_pos hmatch,
        List.length_append] at hsum
      rw [← List.length_eq_zero_iff]
      split at hsum <;> split at hsum <;> omega
    · rintro rfl
      rw [grepLine_nil name hne, List.append_nil, List.append_nil]
  · have hleft : ¬ str <:+: a := fun h => hmatch (h.trans (List.prefix_append a b).isInfix)
    have hright : ¬ str <:+: b := fun h => hmatch (h.trans (List.suffix_append a b).isInfix)
    rw [grepLine, grepLine, grepLine, if_neg hmatch, if_neg hleft, if_neg hright]
    exact iff_of_true rfl (Or.inr hmatch)

theorem grepText_eq_nil_iff (str name l : List UInt8) :
    grepText str name l = [] ↔ ∀ p ∈ l.splitOn 0x0A, ¬ str <:+: p := by
  rw [grepText, mapLines, List.flatMap_eq_nil_iff]
  refine forall₂_congr fun p _ => ?_
  rw [← List.length_eq_zero_iff, grepLine_length]
  split
  · next h => exact iff_of_false (by omega) (not_not_intro h)
  · next h => exact iff_of_true rfl h

/-- With a negative first character nothing is printed. -/
theorem mapLines_shownLine_of_neg (name l : List UInt8) (hsign : ¬ str.headD 0 < 128) :
    mapLines 0x0A (shownLine str name) l = [] :=
  mapLines_eq_nil fun _ _ => if_neg hsign

theorem mapLines_shownLine_of_pos (name l : List UInt8) (hsign : str.headD 0 < 128) :
    mapLines 0x0A (shownLine str name) l = grepText str name l :=
  mapLines_congr fun _ => if_pos hsign

theorem nil_eq_grepText_iff (name : List UInt8) (hsign : ¬ str.headD 0 < 128) :
    [] = grepText str name l ↔ ¬ NegativeMatch str l := by
  rw [eq_comm, grepText_eq_nil_iff, NegativeMatch, and_iff_right (UInt8.not_lt.mp hsign)]
  simp only [not_exists, not_and]

theorem mapLines_shownLine_iff (str name l : List UInt8) :
    mapLines 0x0A (shownLine str name) l = grepText str name l ↔ ¬ NegativeMatch str l := by
  by_cases hsign : str.headD 0 < 128
  · rw [mapLines_shownLine_of_pos name l hsign]
    exact iff_of_true rfl fun h => UInt8.not_le.mpr hsign h.1
  · rw [mapLines_shownLine_of_neg name l hsign, nil_eq_grepText_iff name hsign]

theorem mapLines_cut_iff (name : List UInt8) (hne : str ≠ []) (ha : lastLine 0x0A a ≠ []) :
    mapLines 0x0A (shownLine str name) a ++ mapLines 0x0A (shownLine str name) b =
        grepText str name (a ++ b) ↔
      ¬ NegativeMatch str (a ++ b) ∧
        (firstLine 0x0A b = [] ∨ ¬ str <:+: lastLine 0x0A a ++ firstLine 0x0A b) := by
  by_cases hsign : str.headD 0 < 128
  · obtain ⟨x, y, hx, hy, hxy⟩ := mapLines_append (grepLine str name) 0x0A a b
    have hpos : ¬ NegativeMatch str (a ++ b) := fun h => UInt8.not_le.mpr hsign h.1
    rw [mapLines_shownLine_of_pos name a hsign, mapLines_shownLine_of_pos name b hsign,
      and_iff_right hpos, ← grepLine_append_eq_iff name hne ha, grepText, grepText, grepText, hx,
      hy, hxy, List.append_assoc, List.append_cancel_left_eq, ← List.append_assoc,
      List.append_cancel_right_eq]
  · rw [mapLines_shownLine_of_neg name a hsign, mapLines_shownLine_of_neg name b hsign,
      List.append_nil, nil_eq_grepText_iff name hsign]
    refine (and_iff_left_of_imp fun h => Or.inr fun hmatch => h ⟨UInt8.not_lt.mp hsign, ?_⟩).symm
    exact ⟨_, line_at_cut_mem 0x0A a b, hmatch⟩

end Output

section Main

variable {s fname : Buffer UInt8} {str name l a b : List UInt8} {junk : ℕ → UInt8}

/-- A file that is cut at a stray newline. -/
theorem grepMeets_cut_iff (fd : ℕ) (args : SearchArgs s fname str name)
    (hstray : junk BUFSIZE = 0x0A) (ha : StrayCut a) (hnul : 0 ∉ a ++ b)
    (hlines : ∀ p ∈ (a ++ b).splitOn 0x0A, p.length ≤ 1023) :
    GrepMeets junk s fname fd str name (a ++ b) ↔ ¬ NegativeMatch str (a ++ b) ∧
      (firstLine 0x0A b = [] ∨ ¬ str <:+: lastLine 0x0A a ++ firstLine 0x0A b) := by
  rw [grepMeets_iff_of_run fun n hn => doOneFile_cut args hstray ha hnul hlines hn,
    mapLines_cut_iff name args.nonempty ha.lastLine_ne_nil]

theorem grepMeets_uncut_iff (fd : ℕ) (args : SearchArgs s fname str name) (hnul : 0 ∉ l)
    (hlines : ∀ p ∈ l.splitOn 0x0A, p.length ≤ 1023)
    (hcut : ¬ (junk BUFSIZE = 0x0A ∧ ∃ a b, l = a ++ b ∧ StrayCut a)) :
    GrepMeets junk s fname fd str name l ↔ ¬ NegativeMatch str l := by
  rw [grepMeets_iff_of_run fun n hn => doOneFile_uncut args hnul hlines hcut hn,
    mapLines_shownLine_iff]

/-- Exactly the matching lines are printed, unless the search string begins with a negative
character and occurs, or a stray newline cuts a matching line in two. -/
theorem grepMeets_iff (fd : ℕ) (args : SearchArgs s fname str name) (hnul : 0 ∉ l)
    (hlines : ∀ p ∈ l.splitOn 0x0A, p.length ≤ 1023) :
    GrepMeets junk s fname fd str name l ↔
      ¬ NegativeMatch str l ∧ ¬ StrayNewline junk str l := by
  by_cases hcut : junk BUFSIZE = 0x0A ∧ ∃ a b, l = a ++ b ∧ StrayCut a
  · obtain ⟨hstray, a, b, rfl, ha⟩ := hcut
    constructor
    · intro hmeets
      refine ⟨((grepMeets_cut_iff fd args hstray ha hnul hlines).mp hmeets).1, ?_⟩
      rintro ⟨-, a', b', hl, ha', hq, hmatch⟩
      rw [hl] at hmeets hnul hlines
      have hline := ((grepMeets_cut_iff fd args hstray ha' hnul hlines).mp hmeets).2
      exact hline.elim hq fun h => h hmatch
    · rintro ⟨hneg, hno⟩
      refine (grepMeets_cut_iff fd args hstray ha hnul hlines).mpr ⟨hneg, ?_⟩
      by_contra hcontra
      rw [not_or, not_not] at hcontra
      exact hno ⟨hstray, a, b, rfl, ha, hcontra⟩
  · rw [grepMeets_uncut_iff fd args hnul hlines hcut]
    refine (and_iff_left fun h => hcut ⟨h.1, ?_⟩).symm
    obtain ⟨-, a, b, hl, ha, -⟩ := h
    exact ⟨a, b, hl, ha⟩

end Main

theorem searchArgs_char {c d : UInt8} (hc : 0 ≠ c) (hd : 0 ≠ d) :
    SearchArgs ⟨2, cString [c]⟩ ⟨2, cString [d]⟩ [c] [d] := by
  have hchar : ∀ e : UInt8, 0 ≠ e → Buffer.Holds 0 ⟨2, cString [e]⟩ 0 [e] := by
    intro e he
    refine ⟨⟨fun i hi => ?_, rfl, by simpa using he⟩, Nat.lt_succ_self 1⟩
    obtain rfl : i = 0 := by simpa using hi
    rfl
  exact ⟨hchar c hc, by simp, hchar d hd⟩

/-- A line `b…b` begins at byte 2 and goes on behind byte 1023. -/
def longLine : List UInt8 := [97, 10] ++ List.replicate 1022 98

theorem longLine_isText : IsText 10 longLine [[97]] (List.replicate 1022 98) :=
  ⟨rfl, by decide, fun h => absurd (List.eq_of_mem_replicate h) (by decide)⟩

theorem longLine_strayCut : StrayCut longLine := by
  refine ⟨[], longLine, fun _ hc => absurd hc List.not_mem_nil, ?_, ?_, rfl⟩
  · rw [longLine, List.length_append, List.length_replicate]
    rfl
  · rw [longLine_isText.lastLine_eq]
    exact List.ne_nil_of_length_pos (by rw [List.length_replicate]; decide)

/-- The text of 1025 bytes, for which the buffer has to be filled twice. -/
theorem longLine_concat : 0 ∉ longLine ++ [98] ∧
    firstLine 10 [98] = ([98] : List UInt8) ∧
    ∀ p ∈ (longLine ++ [98]).splitOn 10, p.length ≤ 1023 := by
  have hfirst : firstLine 10 [98] = ([98] : List UInt8) := by decide
  have htail : (([98] : List UInt8).splitOn 10).tail = [] := by decide
  refine ⟨fun h => ?_, hfirst, ?_⟩
  · rw [longLine, List.append_assoc] at h
    rcases List.mem_append.mp h with h | h
    · exact absurd h (by decide)
    rcases List.mem_append.mp h with h | h
    · exact absurd (List.eq_of_mem_replicate h) (by decide)
    · exact absurd h (by decide)
  · rw [longLine_isText.splitOn_append_eq, hfirst, htail, List.singleton_append]
    intro p hp
    rcases List.mem_pair.mp hp with rfl | rfl
    · decide
    · rw [List.length_append, List.length_replicate]
      decide

/-- The long line is printed when the byte behind the buffer is not a newline. -/
theorem line_printed : GrepMeets (fun _ => 0) ⟨2, cString [98]⟩ ⟨2, cString [102]⟩ 2 [98] [102]
    (longLine ++ [98]) :=
  (grepMeets_iff 2 (searchArgs_char (by decide) (by decide)) longLine_concat.1
    longLine_concat.2.2).mpr ⟨fun h => absurd h.1 (by decide), fun h => absurd h.1 (by decide)⟩

/-- With a stray newline the line is printed as two lines. -/
theorem line_cut : ¬ GrepMeets (fun _ => 10) ⟨2, cString [98]⟩ ⟨2, cString [102]⟩ 2 [98] [102]
    (longLine ++ [98]) := by
  obtain ⟨hnul, hfirst, hlines⟩ := longLine_concat
  rw [grepMeets_cut_iff 2 (searchArgs_char (by decide) (by decide)) rfl longLine_strayCut hnul
    hlines, hfirst]
  rintro ⟨-, hnil | hmatch⟩
  · exact absurd hnil (by decide)
  · exact hmatch (List.suffix_append _ _).isInfix

/-- A character that is negative as a `char` is not found. -/
theorem negative_missed : ¬ GrepMeets (fun _ => 0) ⟨2, cString [0xE4]⟩ ⟨2, cString [102]⟩ 2 [0xE4]
    [102] [0xE4] := by
  rw [grepMeets_uncut_iff 2 (searchArgs_char (by decide) (by decide)) (by decide) (by decide)
    fun h => absurd h.1 (by decide)]
  exact not_not_intro ⟨by decide, [0xE4], by decide, List.infix_rfl⟩

end KudOS.Grep
