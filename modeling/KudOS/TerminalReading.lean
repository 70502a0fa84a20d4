import KudOS.ShellStart

/-!
# The buffers of terminal_read

`terminal_read` stores a newline behind the characters it copied, whatever ended the
copying, and looks at the next character before it compares the index with the size of
the line buffer.
-/

namespace KudOS

namespace Tty

/-- The test of the loop in `terminal_read` at index `i`. -/
def goesOn (b : ℕ → UInt8) (count : ℤ) (i : ℕ) : Prop :=
  i < count ∧ b i ≠ 0 ∧ i < bufferMaxSize ∧ b i ≠ newlineChar

instance (b : ℕ → UInt8) (count : ℤ) : DecidablePred (goesOn b count) :=
  fun _ => inferInstanceAs (Decidable (_ ∧ _))

/-- The indices of the line buffer that the test at `i` looks at, from left to right. -/
def testReads (b : ℕ → UInt8) (count : ℤ) (i : ℕ) : List ℕ :=
  if i < count then
    if b i ≠ 0 then
      if i < bufferMaxSize then [i, i] else [i]
    else [i]
  else []

/-- What a call of `terminal_read` touches: indices of the line buffer it reads, and
indices of the caller's buffer it writes. -/
structure BufferAccess where
  reads : List ℕ
  writes : List ℕ

/-- The loop of `terminal_read` from index `i` on with the newline stored behind it, if
the loop stops within `n` tests. -/
def accessLoop (b : ℕ → UInt8) (count : ℤ) : ℕ → ℕ → Option BufferAccess
  | 0, _ => none
  | n + 1, i =>
    if goesOn b count i then
      (accessLoop b count n (i + 1)).map fun a =>
        ⟨testReads b count i ++ i :: a.reads, i :: a.writes⟩
    else some ⟨testReads b count i, [i]⟩

/-- `terminal_read` returns, writes only the first `count` bytes of the caller's buffer,
as many as it says, and reads only the line buffer. -/
def RespectsBuffer (y : Tty) (count : ℤ) : Prop :=
  ∃ out y' n a, y.terminalRead count = .ok (out, y') ∧
    accessLoop y.curBuffer count n 0 = some a ∧
    (∀ i ∈ a.writes, (i : ℤ) < count) ∧ a.writes = List.range out.length ∧
    (out.length : ℤ) ≤ count ∧ ∀ i ∈ a.reads, i < bufferMaxSize

/-! ## Where the loop stops -/

theorem readLoop_succ (b : ℕ → UInt8) (count : ℤ) (n i : ℕ) : readLoop b count (n + 1) i =
    if goesOn b count i then b i :: readLoop b count n (i + 1) else [] := rfl

/-- The loop goes on up to an index and stops there. -/
theorem readLoop_spec (b : ℕ → UInt8) (count : ℤ) {n i : ℕ} (hin : i + n = bufferMaxSize) :
    (∀ j < (readLoop b count n i).length, goesOn b count (i + j)) ∧
      ¬ goesOn b count (i + (readLoop b count n i).length) := by
  induction n generalizing i with
  | zero =>
    refine ⟨fun j hj => absurd hj (Nat.not_lt_zero j), fun hgo => ?_⟩
    exact absurd hgo.2.2.1 (Nat.not_lt_of_le hin.ge)
  | succ n ih =>
    rw [readLoop_succ]
    by_cases hgo : goesOn b count i
    · obtain ⟨hall, hstop⟩ := ih (i := i + 1) (by omega)
      have hshift : ∀ j, i + 1 + j = i + (j + 1) := fun j => by omega
      rw [if_pos hgo, List.length_cons]
      refine ⟨fun j hj => ?_, ?_⟩
      · cases j with
        | zero => exact hgo
        | succ j =>
          rw [← hshift]
          exact hall j (by omega)
      · rwa [← hshift (readLoop b count n (i + 1)).length]
    · rw [if_neg hgo]
      exact ⟨fun j hj => absurd hj (Nat.not_lt_zero j), hgo⟩

/-- The index at which the loop of `terminal_read` stops. -/
def stopIndex (y : Tty) (count : ℤ) : ℕ := (readLoop y.curBuffer count bufferMaxSize 0).length

theorem goesOn_of_lt_stopIndex {y : Tty} {count : ℤ} {j : ℕ} (hj : j < y.stopIndex count) :
    goesOn y.curBuffer count j := by
  have hgo := (readLoop_spec y.curBuffer count (Nat.zero_add bufferMaxSize)).1 j hj
  rwa [Nat.zero_add] at hgo

theorem not_goesOn_stopIndex (y : Tty) (count : ℤ) :
    ¬ goesOn y.curBuffer count (y.stopIndex count) := by
  have hstop := (readLoop_spec y.curBuffer count (Nat.zero_add bufferMaxSize)).2
  rwa [Nat.zero_add] at hstop

theorem stopIndex_le_of_not_goesOn {y : Tty} {count : ℤ} {i : ℕ}
    (hi : ¬ goesOn y.curBuffer count i) : y.stopIndex count ≤ i :=
  Nat.le_of_not_lt fun hlt => hi (goesOn_of_lt_stopIndex hlt)

theorem length_terminalRead {y y' : Tty} {count : ℤ} {out : List UInt8}
    (h : y.terminalRead count = .ok (out, y')) : out.length = y.stopIndex count + 1 := by
  unfold terminalRead at h
  split at h
  · cases h
    rw [List.length_append]
    rfl
  · cases h

/-! ## What the call touches -/

theorem testReads_of_goesOn {b : ℕ → UInt8} {count : ℤ} {i : ℕ} (h : goesOn b count i) :
    testReads b count i = [i, i] := by
  rw [testReads, if_pos h.1, if_pos h.2.1, if_pos h.2.2.1]

theorem mem_testReads {b : ℕ → UInt8} {count : ℤ} {i j : ℕ} :
    j ∈ testReads b count i ↔ (i : ℤ) < count ∧ j = i := by
  unfold testReads
  split
  · split
    · split <;> simp [*]
    · simp [*]
  · simp [*]

/-- With enough tests the loop yields its accesses: those of the indices passed, and those
of the index at which it stops. -/
theorem accessLoop_eq {b : ℕ → UInt8} {count : ℤ} {n i k : ℕ}
    (hgo : ∀ j < k, goesOn b count (i + j)) (hstop : ¬ goesOn b count (i + k)) (hn : k < n) :
    ∃ a, accessLoop b count n i = some a ∧ a.writes = List.range' i (k + 1) ∧
      ∀ j, j ∈ a.reads ↔ i ≤ j ∧ j < i + k ∨ j ∈ testReads b count (i + k) := by
  induction n generalizing i k with
  | zero => exact absurd hn (Nat.not_lt_zero k)
  | succ n ih =>
    rw [accessLoop]
    cases k with
    | zero =>
      have hno : ¬ goesOn b count i := hstop
      rw [if_neg hno]
      refine ⟨_, rfl, rfl, fun j => ?_⟩
      rw [Nat.add_zero]
      exact ⟨Or.inr, fun h => h.resolve_left (by omega)⟩
    | succ k =>
      have hshift : ∀ j, i + 1 + j = i + (j + 1) := fun j => by omega
      have hi : goesOn b count i := hgo 0 (Nat.succ_pos k)
      obtain ⟨a, ha, hwrites, hreads⟩ := ih (i := i + 1) (k := k)
        (fun j hj => by rw [hshift]; exact hgo (j + 1) (by omega)) (by rwa [hshift]) (by omega)
      rw [if_pos hi, ha]
      refine ⟨_, rfl, ?_, fun j => ?_⟩
      · dsimp only
        rw [hwrites]
        rfl
      · dsimp only
        rw [testReads_of_goesOn hi]
        simp only [List.cons_append, List.nil_append, List.mem_cons, hreads, hshift]
        constructor
        · rintro (rfl | rfl | rfl | h | h)
          · exact Or.inl (by omega)
          · exact Or.inl (by omega)
          · exact Or.inl (by omega)
          · exact Or.inl (by omega)
          · exact Or.inr h
        · rintro (h | h)
          · rcases Nat.eq_or_lt_of_le h.1 with rfl | hlt
            · exact Or.inl rfl
            · exact Or.inr (Or.inr (Or.inr (Or.inl (by omega))))
          · exact Or.inr (Or.inr (Or.inr (Or.inr h)))

/-- A loop that stopped had more tests than iterations. -/
theorem lt_of_accessLoop_eq_some {b : ℕ → UInt8} {count : ℤ} {n i k : ℕ} {a : BufferAccess}
    (hgo : ∀ j < k, goesOn b count (i + j)) (hstop : ¬ goesOn b count (i + k))
    (ha : accessLoop b count n i = some a) : k < n := by
  induction n generalizing i k a with
  | zero => cases ha
  | succ n ih =>
    cases k with
    | zero => exact Nat.succ_pos n
    | succ k =>
      have hshift : ∀ j, i + 1 + j = i + (j + 1) := fun j => by omega
      have hi : goesOn b count i := hgo 0 (Nat.succ_pos k)
      rw [accessLoop, if_pos hi] at ha
      obtain ⟨a', ha', -⟩ := Option.map_eq_some_iff.mp ha
      exact Nat.succ_lt_succ (ih (fun j hj => by rw [hshift]; exact hgo (j + 1) (by omega))
        (by rwa [hshift]) ha')

/-! ## When the buffers are respected -/

/-- A line that ends within the caller's buffer and the line buffer. -/
def EndsWithin (y : Tty) (count : ℤ) : Prop :=
  ∃ i < bufferMaxSize, (i : ℤ) < count ∧ (y.curBuffer i = 0 ∨ y.curBuffer i = newlineChar)

theorem RespectsBuffer.endsWithin {y : Tty} {count : ℤ} (h : y.RespectsBuffer count) :
    y.EndsWithin count := by
  obtain ⟨out, y', n, a, hread, ha, hwrites, hrange, -, hreads⟩ := h
  let k := y.stopIndex count
  have hgo : ∀ j < k, goesOn y.curBuffer count (0 + j) := by
    intro j hj
    rw [Nat.zero_add]
    exact goesOn_of_lt_stopIndex hj
  have hstop : ¬ goesOn y.curBuffer count (0 + k) := by
    rw [Nat.zero_add]
    exact not_goesOn_stopIndex y count
  have hn := lt_of_accessLoop_eq_some hgo hstop ha
  obtain ⟨a', ha', -, hmem⟩ := accessLoop_eq hgo hstop hn
  obtain rfl : a' = a := Option.some.inj (ha'.symm.trans ha)
  have hcount : (k : ℤ) < count := by
    refine hwrites k ?_
    rw [hrange, length_terminalRead hread]
    exact List.mem_range.mpr (Nat.lt_succ_self k)
  have hk : k < bufferMaxSize :=
    hreads k ((hmem k).mpr (Or.inr (mem_testReads.mpr ⟨by rwa [Nat.zero_add], by omega⟩)))
  refine ⟨k, hk, hcount, ?_⟩
  by_contra hchar
  rw [not_or] at hchar
  exact not_goesOn_stopIndex y count ⟨hcount, hchar.1, hk, hchar.2⟩

/-- `terminal_read` respects both buffers exactly if a NUL or a newline ends the line
within them. -/
theorem respectsBuffer_iff {y : Tty} (henter : y.enterFlag = true) (count : ℤ) :
    y.RespectsBuffer count ↔ y.EndsWithin count := by
  constructor
  · exact RespectsBuffer.endsWithin
  · rintro ⟨i, hi, hcount, hchar⟩
    have hle : y.stopIndex count ≤ i := by
      refine stopIndex_le_of_not_goesOn fun hgo => ?_
      exact hchar.elim hgo.2.1 hgo.2.2.2
    have hread : y.terminalRead count = .ok (readLoop y.curBuffer count bufferMaxSize 0 ++
        [newlineChar], { y.newLine true with enterFlag := false }) := by
      rw [terminalRead, if_pos henter]
    have hlen := length_terminalRead hread
    obtain ⟨a, ha, hwrites, hreads⟩ := @accessLoop_eq y.curBuffer count (bufferMaxSize + 1) 0
      (y.stopIndex count)
      (fun j hj => by rw [Nat.zero_add]; exact goesOn_of_lt_stopIndex hj)
      (by rw [Nat.zero_add]; exact not_goesOn_stopIndex y count) (by omega)
    refine ⟨_, _, _, a, hread, ha, fun j hj => ?_, ?_, ?_, fun j hj => ?_⟩
    · rw [hwrites, ← List.range_eq_range', List.mem_range] at hj
      omega
    · rw [hwrites, hlen, List.range_eq_range']
    · rw [hlen]
      omega
    · rcases (hreads j).mp hj with h | h
      · omega
      · have hj' := (mem_testReads.mp h).2
        omega

/-- A terminal on which one character was typed and Enter pressed. -/
def oneKeyTty : Tty :=
  { blankTty with
    terminalBuffer := fun i => if i = 0 then 49 else if i = 1 then newlineChar else 0
    enterFlag := true }

/-- A program that reads the line into a buffer of 128 bytes. -/
theorem oneKey_respectsBuffer : oneKeyTty.RespectsBuffer 128 :=
  (respectsBuffer_iff rfl 128).mpr ⟨1, by decide, by decide, Or.inr rfl⟩

/-- `entry` reads the same line into a buffer of one byte. -/
theorem oneKey_not_respectsBuffer : ¬ oneKeyTty.RespectsBuffer 1 := by
  intro h
  obtain ⟨i, -, hcount, hchar⟩ := h.endsWithin
  obtain rfl : i = 0 := by omega
  exact absurd hchar (by decide)

end Tty
end KudOS
