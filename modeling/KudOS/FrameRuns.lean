import KudOS.FrameCells
import KudOS.ProgramResults

/-!
# Runs of add_frames

Between two reads the rest of each file is laid out as lines: the rest of the line at hand,
and the lines behind it. What the loops still have to add are the places of these lines.
-/

namespace KudOS.User

open Blink (BlinkStruct)
open Kernel PaddedLists Sessions TextLines

variable {m : Machine} {link : PcbLink} {s s' s₀ : Kernel} {q : Call} {r : Reply}
  {σ : TerminalId → List ℕ} {disturbs : Kernel → Kernel → Prop} {c c0 c1 : UInt8}
  {eof eof0 eof1 : Bool} {rest rest0 rest1 : List UInt8} {a b fd n : ℕ} {d : FsDescriptor}
  {junk : BlinkStruct} {total : List Cell} {v : Frames} {entry : Dentry}

/-! ## The lines of one file -/

/-- The lines from the character `c` on, which has been read. -/
def taken (c : UInt8) (eof : Bool) (rest : List UInt8) : List (List UInt8) :=
  if eof = true then [[]] else (c :: rest).splitOn newlineChar

/-- The lines that come behind the character `c`, in front of the next read. -/
def pending (c : UInt8) (eof : Bool) (rest : List UInt8) : List (List UInt8) :=
  if c = newlineChar then taken c eof rest else rest.splitOn newlineChar

/-- The lines behind the one at hand, when that has ended. -/
def later (eof : Bool) (rest : List UInt8) : List (List UInt8) :=
  if eof = true then [] else rest.splitOn newlineChar

def readsLeft (eof : Bool) (rest : List UInt8) : ℕ := if eof = true then 0 else rest.length + 1

/-- What a file that is read character by character still delivers. -/
inductive Source (m : Machine) (fd : ℕ) (d : FsDescriptor) : UInt8 → Bool → List UInt8 → Prop where
  | more {c : UInt8} {rest : List UInt8} (hd : Delivers m 1 fd d (rest.map fun b => [b])) :
    Source m fd d c false rest
  | ended : Source m fd d newlineChar true []

theorem splitOn_newline (rest : List UInt8) :
    (newlineChar :: rest).splitOn newlineChar = [] :: rest.splitOn newlineChar := by
  have hnil : newlineChar ∉ ([] : List UInt8) := List.not_mem_nil
  exact List.splitOn_append_cons_self_of_not_mem hnil rest

theorem splitOn_char (h : c ≠ newlineChar) (rest : List UInt8) :
    (c :: rest).splitOn newlineChar =
      (c :: firstLine newlineChar rest) :: (rest.splitOn newlineChar).tail := by
  have hnot : newlineChar ∉ [c] := by
    rw [List.mem_singleton]
    exact h.symm
  exact splitOn_append hnot rest

namespace Source

theorem eof_of_ne (h : Source m fd d c eof rest) (hc : c ≠ newlineChar) : eof = false := by
  cases h with
  | more hd => rfl
  | ended => exact absurd rfl hc

theorem taken_newline (h : Source m fd d newlineChar eof rest) :
    taken newlineChar eof rest = [] :: later eof rest := by
  cases h with
  | more hd => exact splitOn_newline rest
  | ended => rfl

theorem taken_char (h : Source m fd d c eof rest) (hc : c ≠ newlineChar) :
    taken c eof rest = (c :: firstLine newlineChar rest) :: (rest.splitOn newlineChar).tail := by
  rw [taken, h.eof_of_ne hc]
  exact splitOn_char hc rest

theorem pending_char (hc : c ≠ newlineChar) (eof : Bool) (rest : List UInt8) :
    pending c eof rest = firstLine newlineChar rest :: (rest.splitOn newlineChar).tail := by
  rw [pending, if_neg hc]
  exact splitOn_eq_cons newlineChar rest

/-- The character itself is the first one of its line. -/
theorem headD_taken (h : Source m fd d c eof rest) :
    ((taken c eof rest).headD []).headD blankSpace = if c = newlineChar then blankSpace else c := by
  by_cases hc : c = newlineChar
  · subst hc
    rw [h.taken_newline, if_pos rfl]
    rfl
  · rw [h.taken_char hc, if_neg hc]
    rfl

/-- One character further, the rest is pending. -/
theorem tail_taken (h : Source m fd d c eof rest) :
    ((taken c eof rest).headD []).tail = (pending c eof rest).headD [] ∧
      (taken c eof rest).tail = (pending c eof rest).tail := by
  by_cases hc : c = newlineChar
  · subst hc
    rw [pending, if_pos rfl, h.taken_newline]
    exact ⟨rfl, rfl⟩
  · rw [h.taken_char hc, pending_char hc]
    exact ⟨rfl, rfl⟩

/-- A file that has not ended is read whatever character it begins with. -/
theorem restart (h : Source m fd d c eof rest) (heof : ¬ eof = true) (c' : UInt8) :
    Source m fd d c' eof rest := by
  cases h with
  | more hd => exact .more hd
  | ended => exact absurd rfl heof

/-- At the end of the file the descriptor does not matter. -/
theorem of_eof (h : Source m fd d c eof rest) (heof : eof = true) (d' : FsDescriptor) :
    Source m fd d' newlineChar eof rest := by
  cases h with
  | more hd => cases heof
  | ended => exact .ended

/-- In the next row, reading goes on or has ended. -/
theorem pending_next (h : Source m fd d c eof rest) (hc : eof = false → c ≠ newlineChar) :
    (pending c eof rest).headD [] = (later eof rest).headD [] ∧
      (pending c eof rest).tail = (later eof rest).tail := by
  cases h with
  | more hd =>
    rw [pending, if_neg (hc rfl), later, if_neg Bool.false_ne_true]
    exact ⟨rfl, rfl⟩
  | ended => exact ⟨rfl, rfl⟩

end Source

/-! ## Reading one character -/

/-- What the program makes of a reply. -/
def received (r : Reply) : UInt8 × Bool :=
  if r.value = 0 then (newlineChar, true) else (r.buf 0, false)

/-- The result of a read, in a state in which only the descriptor has changed. -/
structure ReadStep (m : Machine) (fd : ℕ) (rest : List UInt8) (s s' : Kernel) (r : Reply)
    (rest' : List UInt8) : Prop where
  source : Source m fd (s'.files fd) (received r).1 (received r).2 rest'
  others : ∀ j, j ≠ fd → s'.files j = s.files j
  lines : taken (received r).1 (received r).2 rest' = rest.splitOn newlineChar
  left : readsLeft (received r).2 rest' < readsLeft false rest

theorem Source.served (h : Source m fd (s.files fd) c false rest) (link : PcbLink) (buf : ℕ → UInt8) :
    (∃ r s', Served m link s (.read fd buf 1) r s') ∧
      ∀ r s', Served m link s (.read fd buf 1) r s' → ∃ rest', ReadStep m fd rest s s' r rest' := by
  cases h with
  | more hd =>
    generalize hchunks : (rest.map fun b => [b]) = cs at hd
    cases hd with
    | ended hread =>
      obtain ⟨d', rtc, hx⟩ := hread s rfl
      refine ⟨⟨_, _, (served_read hx).mpr ⟨rfl, rfl⟩⟩, fun r s' hserved => ?_⟩
      obtain ⟨rfl, rfl⟩ := (served_read hx).mp hserved
      obtain rfl := List.map_eq_nil_iff.mp hchunks
      refine ⟨[], .ended, fun j hj => ?_, rfl, Nat.succ_pos _⟩
      exact (congrFun (withFiles_files s _) j).trans (Function.update_of_ne hj ..)
    | @chunk d d' chunk cs hne hread hd =>
      have hx := hread s rfl
      refine ⟨⟨_, _, (served_read hx).mpr ⟨rfl, rfl⟩⟩, fun r s' hserved => ?_⟩
      obtain ⟨rfl, rfl⟩ := (served_read hx).mp hserved
      obtain ⟨b, rest, rfl⟩ : ∃ b rest', rest = b :: rest' := by
        cases rest with
        | nil => cases hchunks
        | cons b rest => exact ⟨b, rest, rfl⟩
      obtain ⟨rfl, rfl⟩ := List.cons.inj hchunks
      refine ⟨rest, .more ?_, fun j hj => ?_, rfl, ?_⟩
      · rw [withFiles_files, Function.update_self]
        exact hd
      · rw [withFiles_files]
        exact Function.update_of_ne hj ..
      · change rest.length + 1 < (b :: rest).length + 1
        rw [List.length_cons]
        omega

/-! ## The loops -/

/-- The descriptors, the entries of the two files and their contents. -/
structure FrameFiles where
  fd0 : ℕ
  fd1 : ℕ
  entry0 : Dentry
  entry1 : Dentry
  bytes0 : List UInt8
  bytes1 : List UInt8

variable {p : FrameFiles}

/-- Both files are read in step, and no other descriptor is touched. -/
structure Reads (m : Machine) (s₀ : Kernel) (p : FrameFiles) (s : Kernel) (v : Frames)
    (rest0 rest1 : List UInt8) : Prop where
  fd0 : v.fd0 = p.fd0
  fd1 : v.fd1 = p.fd1
  source0 : Source m p.fd0 (s.files p.fd0) v.c0 v.eof0 rest0
  source1 : Source m p.fd1 (s.files p.fd1) v.c1 v.eof1 rest1
  others : ∀ j, j ≠ p.fd0 → j ≠ p.fd1 → s.files j = s₀.files j

/-- The structures of the cells `done` have been added, and what is left of the row at hand
and of the rows behind it is still to come. -/
def Progress (junk : BlinkStruct) (total : List Cell) (v : Frames)
    (ls0 ls1 : List (List UInt8)) : Prop :=
  ∃ done, v.added = done.map (Cell.struct junk) ∧
    done ++ (Cell.ofRow v.row v.col (ls0.headD []) (ls1.headD []) ++
      Cell.ofLines (v.row + 1) ls0.tail ls1.tail) = total

def RowDone (junk : BlinkStruct) (total : List Cell) (v : Frames)
    (ls0 ls1 : List (List UInt8)) : Prop :=
  ∃ done, v.added = done.map (Cell.struct junk) ∧ done ++ Cell.ofLines (v.row + 1) ls0 ls1 = total

def Closed (s : Kernel) (fd : ℕ) : Prop :=
  (s.files fd).fileOps = none ∧ (s.files fd).flags = fileNotInUse

/-- Each row takes at most two calls besides its reads. -/
def callsLeft (v : Frames) (rest0 rest1 : List UInt8) : ℕ :=
  3 * (readsLeft v.eof0 rest0 + readsLeft v.eof1 rest1)

/-- Where `add_frames` is, with a bound for its calls. -/
inductive AddFrames.At (m : Machine) (s₀ : Kernel) (p : FrameFiles) (junk : BlinkStruct)
    (s : Kernel) : ℕ → AddFrames → Prop where
  | open0 (hs : s.files = s₀.files) :
      AddFrames.At m s₀ p junk s (3 * (p.bytes0.length + p.bytes1.length + 2) + 2) .open0
  | open1 (hs : s.files = Function.update s₀.files p.fd0 (openedFd m.image p.entry0)) :
      AddFrames.At m s₀ p junk s (3 * (p.bytes0.length + p.bytes1.length + 2) + 1) (.open1 p.fd0)
  | read0 {v : Frames} {rest0 rest1 : List UInt8} (h : Reads m s₀ p s v rest0 rest1)
      (hc : v.c0 ≠ newlineChar) (hp : Progress junk (Cell.ofTexts p.bytes0 p.bytes1) v
        (pending v.c0 v.eof0 rest0) (pending v.c1 v.eof1 rest1)) :
      AddFrames.At m s₀ p junk s (callsLeft v rest0 rest1) (.read0 v)
  | read1 {v : Frames} {rest0 rest1 : List UInt8} (h : Reads m s₀ p s v rest0 rest1)
      (hc : v.c1 ≠ newlineChar) (hp : Progress junk (Cell.ofTexts p.bytes0 p.bytes1) v
        (taken v.c0 v.eof0 rest0) (pending v.c1 v.eof1 rest1)) :
      AddFrames.At m s₀ p junk s (callsLeft v rest0 rest1) (.read1 v)
  | close0 {v : Frames} {rest0 rest1 : List UInt8} (h : Reads m s₀ p s v rest0 rest1)
      (heof : v.eof0 = true) (hp : RowDone junk (Cell.ofTexts p.bytes0 p.bytes1) v
        (later v.eof0 rest0) (later v.eof1 rest1)) :
      AddFrames.At m s₀ p junk s (callsLeft v rest0 rest1 + 2) (.close0 v)
  | close1 {v : Frames} {rest0 rest1 : List UInt8} (h : Reads m s₀ p s v rest0 rest1)
      (hc : v.eof0 = false → v.c0 ≠ newlineChar) (hclosed : v.eof0 = true → Closed s p.fd0)
      (heof : v.eof1 = true) (hp : RowDone junk (Cell.ofTexts p.bytes0 p.bytes1) v
        (later v.eof0 rest0) (later v.eof1 rest1)) :
      AddFrames.At m s₀ p junk s (callsLeft v rest0 rest1 + 1) (.close1 v)
  | returned (hclosed : Closed s p.fd0 ∧ Closed s p.fd1)
      (hothers : ∀ j, j ≠ p.fd0 → j ≠ p.fd1 → s.files j = s₀.files j) :
      AddFrames.At m s₀ p junk s 0
        (.returned ((Cell.ofTexts p.bytes0 p.bytes1).map (Cell.struct junk)))

theorem later_eof (rest : List UInt8) : later true rest = [] := rfl

theorem AddFrames.At.proceed (h : Reads m s₀ p s v rest0 rest1)
    (hc : ¬ (v.c0 = newlineChar ∧ v.c1 = newlineChar))
    (hp : Progress junk (Cell.ofTexts p.bytes0 p.bytes1) v
      (pending v.c0 v.eof0 rest0) (pending v.c1 v.eof1 rest1)) :
    AddFrames.At m s₀ p junk s (callsLeft v rest0 rest1) (AddFrames.proceed v) := by
  rw [AddFrames.proceed]
  by_cases hc0 : v.c0 = newlineChar
  · rw [if_neg (not_not_intro hc0)]
    refine .read1 h (fun hc1 => hc ⟨hc0, hc1⟩) ?_
    rwa [pending, if_pos hc0] at hp
  · rw [if_pos hc0]
    exact .read0 h hc0 hp

/-- Behind the row, when the files have been closed that have ended. -/
theorem AddFrames.At.nextRow (h : Reads m s₀ p s v rest0 rest1)
    (hc0 : v.eof0 = false → v.c0 ≠ newlineChar) (hc1 : v.eof1 = false → v.c1 ≠ newlineChar)
    (hclosed0 : v.eof0 = true → Closed s p.fd0) (hclosed1 : v.eof1 = true → Closed s p.fd1)
    (hp : RowDone junk (Cell.ofTexts p.bytes0 p.bytes1) v
      (later v.eof0 rest0) (later v.eof1 rest1)) :
    AddFrames.At m s₀ p junk s (callsLeft v rest0 rest1) (AddFrames.nextRow v) := by
  obtain ⟨done, hadded, htotal⟩ := hp
  rw [AddFrames.nextRow]
  by_cases hend : v.eof0 = true ∧ v.eof1 = true
  · rw [if_pos hend, callsLeft, hend.1, hend.2]
    rw [hend.1, hend.2, later_eof, later_eof] at htotal
    have hall : done = Cell.ofTexts p.bytes0 p.bytes1 := (List.append_nil done).symm.trans htotal
    rw [hadded, hall]
    exact .returned ⟨hclosed0 hend.1, hclosed1 hend.2⟩ h.others
  · rw [if_neg hend]
    have hreads : Reads m s₀ p s { v with row := v.row + 1, col := 0 } rest0 rest1 :=
      ⟨h.fd0, h.fd1, h.source0, h.source1, h.others⟩
    refine .proceed hreads ?_ ⟨done, hadded, ?_⟩
    · rintro ⟨hnl0, hnl1⟩
      refine hend ⟨?_, ?_⟩
      · exact Bool.not_eq_false _ ▸ fun heof => hc0 heof hnl0
      · exact Bool.not_eq_false _ ▸ fun heof => hc1 heof hnl1
    · dsimp only
      rw [(h.source0.pending_next hc0).1, (h.source0.pending_next hc0).2,
        (h.source1.pending_next hc1).1, (h.source1.pending_next hc1).2, ← htotal]
      exact congrArg (done ++ ·) (Cell.ofLines_step _ _ _).symm

theorem AddFrames.At.endRow1 (h : Reads m s₀ p s v rest0 rest1)
    (hc0 : v.eof0 = false → v.c0 ≠ newlineChar) (hclosed0 : v.eof0 = true → Closed s p.fd0)
    (hp : RowDone junk (Cell.ofTexts p.bytes0 p.bytes1) v
      (later v.eof0 rest0) (later v.eof1 rest1)) :
    ∃ k ≤ callsLeft v rest0 rest1 + 1, AddFrames.At m s₀ p junk s k (AddFrames.endRow1 v) := by
  rw [AddFrames.endRow1]
  by_cases heof : v.eof1 = true
  · rw [if_pos heof]
    exact ⟨_, le_rfl, .close1 h hc0 hclosed0 heof hp⟩
  · rw [if_neg heof]
    have hreads : Reads m s₀ p s { v with c1 := 0x30 } rest0 rest1 :=
      ⟨h.fd0, h.fd1, h.source0, h.source1.restart heof 0x30, h.others⟩
    have hzero : (0x30 : UInt8) ≠ newlineChar := by decide
    exact ⟨_, Nat.le_succ _, .nextRow hreads hc0 (fun _ => hzero) hclosed0
      (fun htrue => absurd htrue heof) hp⟩

theorem AddFrames.At.endRow0 (h : Reads m s₀ p s v rest0 rest1)
    (hp : RowDone junk (Cell.ofTexts p.bytes0 p.bytes1) v
      (later v.eof0 rest0) (later v.eof1 rest1)) :
    ∃ k ≤ callsLeft v rest0 rest1 + 2, AddFrames.At m s₀ p junk s k (AddFrames.endRow0 v) := by
  rw [AddFrames.endRow0]
  by_cases heof : v.eof0 = true
  · rw [if_pos heof]
    exact ⟨_, le_rfl, .close0 h heof hp⟩
  · rw [if_neg heof]
    have hreads : Reads m s₀ p s { v with c0 := 0x30 } rest0 rest1 :=
      ⟨h.fd0, h.fd1, h.source0.restart heof 0x30, h.source1, h.others⟩
    have hzero : (0x30 : UInt8) ≠ newlineChar := by decide
    obtain ⟨k, hk, hat⟩ := AddFrames.At.endRow1 hreads (fun _ => hzero)
      (fun htrue => absurd htrue heof) hp
    exact ⟨k, hk.trans (Nat.le_succ _), hat⟩

theorem Progress.place (h : Reads m s₀ p s v rest0 rest1)
    (hp : Progress junk total v (taken v.c0 v.eof0 rest0) (taken v.c1 v.eof1 rest1)) :
    ∃ done, v.added = done.map (Cell.struct junk) ∧
      done ++ (Cell.visible v.row v.col (if v.c0 = newlineChar then blankSpace else v.c0)
        (if v.c1 = newlineChar then blankSpace else v.c1) ++
        (Cell.ofRow v.row (v.col + 1) ((pending v.c0 v.eof0 rest0).headD [])
          ((pending v.c1 v.eof1 rest1).headD []) ++
          Cell.ofLines (v.row + 1) (pending v.c0 v.eof0 rest0).tail
            (pending v.c1 v.eof1 rest1).tail)) = total := by
  obtain ⟨done, hadded, htotal⟩ := hp
  rw [Cell.ofRow_step, h.source0.headD_taken, h.source1.headD_taken, h.source0.tail_taken.1,
    h.source0.tail_taken.2, h.source1.tail_taken.1, h.source1.tail_taken.2,
    List.append_assoc] at htotal
  exact ⟨done, hadded, htotal⟩

/-- The test of `add_frames` is that the place is visible. -/
theorem visible_iff (c0 c1 : UInt8) :
    ((c0 ≠ blankSpace ∧ c0 ≠ newlineChar) ∨ (c1 ≠ blankSpace ∧ c1 ≠ newlineChar)) ↔
      ¬ ((if c0 = newlineChar then blankSpace else c0) = blankSpace ∧
        (if c1 = newlineChar then blankSpace else c1) = blankSpace) := by
  have hchar : ∀ c : UInt8, (c ≠ blankSpace ∧ c ≠ newlineChar) ↔
      ¬ (if c = newlineChar then blankSpace else c) = blankSpace := by
    intro c
    split
    · rename_i hc
      exact iff_of_false (fun h => h.2 hc) (not_not_intro rfl)
    · rename_i hc
      exact and_iff_left hc
  rw [hchar, hchar, not_and_or]

theorem AddFrames.At.examine (h : Reads m s₀ p s v rest0 rest1)
    (hp : Progress junk (Cell.ofTexts p.bytes0 p.bytes1) v
      (taken v.c0 v.eof0 rest0) (taken v.c1 v.eof1 rest1)) :
    ∃ k ≤ callsLeft v rest0 rest1 + 2,
      AddFrames.At m s₀ p junk s k (AddFrames.examine junk v) := by
  rw [AddFrames.examine]
  by_cases hend : v.c0 = newlineChar ∧ v.c1 = newlineChar
  · rw [if_pos hend]
    refine AddFrames.At.endRow0 h ?_
    obtain ⟨done, hadded, htotal⟩ := hp
    have h0 := h.source0
    have h1 := h.source1
    rw [hend.1] at h0 htotal
    rw [hend.2] at h1 htotal
    rw [h0.taken_newline, h1.taken_newline] at htotal
    exact ⟨done, hadded, htotal⟩
  rw [if_neg hend]
  obtain ⟨done, hadded, htotal⟩ := Progress.place h hp
  by_cases hvisible : (v.c0 ≠ blankSpace ∧ v.c0 ≠ newlineChar) ∨
      (v.c1 ≠ blankSpace ∧ v.c1 ≠ newlineChar)
  · rw [if_pos hvisible]
    rw [Cell.visible, if_neg ((visible_iff _ _).mp hvisible), ← List.append_assoc] at htotal
    have hreads : Reads m s₀ p s
        { v with added := v.added ++ [AddFrames.blinkStruct junk v], col := v.col + 1 } rest0 rest1 :=
      ⟨h.fd0, h.fd1, h.source0, h.source1, h.others⟩
    refine ⟨_, Nat.le_add_right _ 2, .proceed hreads hend ⟨_, ?_, htotal⟩⟩
    rw [List.map_append, ← hadded]
    rfl
  · rw [if_neg hvisible]
    rw [Cell.visible, if_pos (not_not.mp fun hno => hvisible ((visible_iff _ _).mpr hno)),
      List.nil_append] at htotal
    have hreads : Reads m s₀ p s { v with col := v.col + 1 } rest0 rest1 :=
      ⟨h.fd0, h.fd1, h.source0, h.source1, h.others⟩
    exact ⟨_, Nat.le_add_right _ 2, .proceed hreads hend ⟨done, hadded, htotal⟩⟩

theorem AddFrames.At.second (h : Reads m s₀ p s v rest0 rest1)
    (hp : Progress junk (Cell.ofTexts p.bytes0 p.bytes1) v
      (taken v.c0 v.eof0 rest0) (pending v.c1 v.eof1 rest1)) :
    ∃ k ≤ callsLeft v rest0 rest1 + 2,
      AddFrames.At m s₀ p junk s k (AddFrames.second junk v) := by
  rw [AddFrames.second]
  by_cases hc1 : v.c1 = newlineChar
  · rw [if_neg (not_not_intro hc1)]
    refine AddFrames.At.examine h ?_
    rwa [pending, if_pos hc1] at hp
  · rw [if_pos hc1]
    exact ⟨_, Nat.le_add_right _ 2, .read1 h hc1 hp⟩

/-! ## The calls -/

/-- The two files exist, and there are descriptors for them. -/
structure AddFrames.Setup (m : Machine) (σ : TerminalId → List ℕ) (s₀ : Kernel)
    (f0 f1 : ℕ → UInt8) (p : FrameFiles) : Prop where
  sound : s₀.Sound σ
  live : s₀.Live s₀.cur
  fd0 : findFreeFd s₀.curPcb = some p.fd0
  fd1 : p.fd0 < p.fd1 ∧ p.fd1 ≤ 7 ∧ (s₀.files p.fd1).fileOps = none ∧
    ∀ j, p.fd0 < j → j < p.fd1 → (s₀.files j).fileOps ≠ none
  entry0 : m.image.readDentryByName f0 = some p.entry0
  entry1 : m.image.readDentryByName f1 = some p.entry1
  reg0 : p.entry0.ftype = fileTypeReg
  reg1 : p.entry1.ftype = fileTypeReg
  delivers0 : Delivers m 1 p.fd0 (openedFd m.image p.entry0) (p.bytes0.map fun b => [b])
  delivers1 : Delivers m 1 p.fd1 (openedFd m.image p.entry1) (p.bytes1.map fun b => [b])

variable {f0 f1 : ℕ → UInt8}

theorem AddFrames.Setup.free (h : AddFrames.Setup m σ s₀ f0 f1 p) :
    2 ≤ p.fd0 ∧ p.fd0 ≤ 7 ∧ p.fd0 ≠ p.fd1 := by
  have hfree := (findFreeFd_eq_some.mp h.fd0).1
  have hlt := h.fd1.1
  exact ⟨hfree.1, hfree.2, by omega⟩

/-- The second descriptor, when the first one has been opened. -/
theorem AddFrames.Setup.findFreeFd_opened (h : AddFrames.Setup m σ s₀ f0 f1 p)
    (hs : s.files = Function.update s₀.files p.fd0 (openedFd m.image p.entry0)) :
    findFreeFd s.curPcb = some p.fd1 := by
  obtain ⟨hlt, h7, hfree, hbetween⟩ := h.fd1
  obtain ⟨⟨h2, -⟩, -, hbelow⟩ := findFreeFd_eq_some.mp h.fd0
  have hopened : (openedFd m.image p.entry0).fileOps ≠ none := by
    rw [openedFd, h.reg0]
    exact Option.some_ne_none _
  refine findFreeFd_eq_some.mpr ⟨⟨by omega, h7⟩, ?_, fun j hj2 hj => ?_⟩
  · change (s.files p.fd1).fileOps = none
    rwa [hs, Function.update_of_ne (by omega)]
  · change (s.files j).fileOps ≠ none
    rw [hs]
    rcases Nat.lt_trichotomy j p.fd0 with hjlt | rfl | hjgt
    · rw [Function.update_of_ne (by omega)]
      exact hbelow j hj2 hjlt
    · rwa [Function.update_self]
    · rw [Function.update_of_ne (by omega)]
      exact hbetween j hjgt hj

/-- What one call of the program leads to. -/
def AddFrames.Next (m : Machine) (link : PcbLink) (s₀ : Kernel) (p : FrameFiles)
    (junk : BlinkStruct) (s : Kernel) (n : ℕ) (q : Call) (next : Reply → AddFrames) : Prop :=
  (∃ r s', Served m link s q r s') ∧ ∀ r s', Served m link s q r s' →
    ∃ k < n, AddFrames.At m s₀ p junk s' k (next r)

theorem AddFrames.next_read0 (hset : AddFrames.Setup m σ s₀ f0 f1 p)
    (h : Reads m s₀ p s v rest0 rest1) (hc : v.c0 ≠ newlineChar)
    (hp : Progress junk (Cell.ofTexts p.bytes0 p.bytes1) v
      (pending v.c0 v.eof0 rest0) (pending v.c1 v.eof1 rest1)) :
    AddFrames.Next m link s₀ p junk s (callsLeft v rest0 rest1)
      (.read v.fd0 (fun _ => v.c0) 1) fun r =>
        AddFrames.second junk (if r.value = 0 then { v with c0 := newlineChar, eof0 := true }
          else { v with c0 := r.buf 0 }) := by
  have heof := h.source0.eof_of_ne hc
  have hsource := h.source0
  rw [heof] at hsource
  have hanswer := hsource.served link fun _ => v.c0
  rw [← h.fd0] at hanswer
  obtain ⟨hserved, hstep⟩ := hanswer
  refine ⟨hserved, fun r s' hs' => ?_⟩
  obtain ⟨rest', hread⟩ := hstep r s' hs'
  have hv : (if r.value = 0 then { v with c0 := newlineChar, eof0 := true }
      else { v with c0 := r.buf 0 }) =
        { v with c0 := (received r).1, eof0 := (received r).2 } := by
    rw [received]
    split
    · rfl
    · rw [← heof]
  have hreads : Reads m s₀ p s' { v with c0 := (received r).1, eof0 := (received r).2 }
      rest' rest1 := by
    refine ⟨h.fd0, h.fd1, hread.source, ?_, fun j hj0 hj1 => ?_⟩
    · rw [hread.others _ hset.free.2.2.symm]
      exact h.source1
    · rw [hread.others j hj0]
      exact h.others j hj0 hj1
  have hleft := hread.left
  rw [pending, if_neg hc, ← hread.lines] at hp
  obtain ⟨k, hk, hat⟩ := AddFrames.At.second hreads hp
  rw [← hv] at hat
  refine ⟨k, ?_, hat⟩
  rw [callsLeft] at hk ⊢
  dsimp only at hk
  rw [heof]
  omega

theorem AddFrames.next_read1 (hset : AddFrames.Setup m σ s₀ f0 f1 p)
    (h : Reads m s₀ p s v rest0 rest1) (hc : v.c1 ≠ newlineChar)
    (hp : Progress junk (Cell.ofTexts p.bytes0 p.bytes1) v
      (taken v.c0 v.eof0 rest0) (pending v.c1 v.eof1 rest1)) :
    AddFrames.Next m link s₀ p junk s (callsLeft v rest0 rest1)
      (.read v.fd1 (fun _ => v.c1) 1) fun r =>
        AddFrames.examine junk (if r.value = 0 then { v with c1 := newlineChar, eof1 := true }
          else { v with c1 := r.buf 0 }) := by
  have heof := h.source1.eof_of_ne hc
  have hsource := h.source1
  rw [heof] at hsource
  have hanswer := hsource.served link fun _ => v.c1
  rw [← h.fd1] at hanswer
  obtain ⟨hserved, hstep⟩ := hanswer
  refine ⟨hserved, fun r s' hs' => ?_⟩
  obtain ⟨rest', hread⟩ := hstep r s' hs'
  have hv : (if r.value = 0 then { v with c1 := newlineChar, eof1 := true }
      else { v with c1 := r.buf 0 }) =
        { v with c1 := (received r).1, eof1 := (received r).2 } := by
    rw [received]
    split
    · rfl
    · rw [← heof]
  have hreads : Reads m s₀ p s' { v with c1 := (received r).1, eof1 := (received r).2 }
      rest0 rest' := by
    refine ⟨h.fd0, h.fd1, ?_, hread.source, fun j hj0 hj1 => ?_⟩
    · rw [hread.others _ hset.free.2.2]
      exact h.source0
    · rw [hread.others j hj1]
      exact h.others j hj0 hj1
  have hleft := hread.left
  rw [pending.eq_def v.c1, if_neg hc, ← hread.lines] at hp
  obtain ⟨k, hk, hat⟩ := AddFrames.At.examine hreads hp
  rw [← hv] at hat
  refine ⟨k, ?_, hat⟩
  rw [callsLeft] at hk ⊢
  dsimp only at hk
  rw [heof]
  omega

/-- Closing a descriptor that may have been closed before. -/
theorem served_close (hrun : Running s) (h7 : fd ≤ 7) (h2 : 2 ≤ fd) (link : PcbLink) :
    (∃ r s', Served m link s (.close fd) r s') ∧ ∀ r s', Served m link s (.close fd) r s' →
      Closed s' fd ∧ ∀ j, j ≠ fd → s'.files j = s.files j := by
  obtain ⟨v, fa, hx, -, hfree, hothers⟩ := sysClose_eq m hrun.table h7
  refine ⟨⟨_, _, .close hx⟩, fun r s' hserved => ?_⟩
  cases hserved with
  | close hx' =>
    cases hx'.symm.trans hx
    rw [Closed, withFiles_files]
    exact ⟨hfree h2, fun j hj => hothers j hj⟩

theorem AddFrames.next_close0 (hset : AddFrames.Setup m σ s₀ f0 f1 p) (hrun : Running s)
    (h : Reads m s₀ p s v rest0 rest1) (heof : v.eof0 = true)
    (hp : RowDone junk (Cell.ofTexts p.bytes0 p.bytes1) v
      (later v.eof0 rest0) (later v.eof1 rest1)) :
    AddFrames.Next m link s₀ p junk s (callsLeft v rest0 rest1 + 2) (.close v.fd0) fun _ =>
      AddFrames.endRow1 { v with c0 := newlineChar } := by
  obtain ⟨h2, h7, hne⟩ := hset.free
  have hanswer := served_close (m := m) hrun h7 h2 link
  rw [← h.fd0] at hanswer
  refine ⟨hanswer.1, fun r s' hserved => ?_⟩
  obtain ⟨hclosed, hothers⟩ := hanswer.2 r s' hserved
  have hreads : Reads m s₀ p s' { v with c0 := newlineChar } rest0 rest1 := by
    refine ⟨h.fd0, h.fd1, h.source0.of_eof heof _, ?_, fun j hj0 hj1 => ?_⟩
    · rw [hothers _ hne.symm]
      exact h.source1
    · rw [hothers j hj0]
      exact h.others j hj0 hj1
  obtain ⟨k, hk, hat⟩ := AddFrames.At.endRow1 hreads
    (fun hfalse => absurd (heof.symm.trans hfalse) (by decide)) (fun _ => hclosed) hp
  exact ⟨k, Nat.lt_succ_of_le hk, hat⟩

theorem AddFrames.next_close1 (hset : AddFrames.Setup m σ s₀ f0 f1 p) (hrun : Running s)
    (h : Reads m s₀ p s v rest0 rest1) (hc : v.eof0 = false → v.c0 ≠ newlineChar)
    (hclosed : v.eof0 = true → Closed s p.fd0) (heof : v.eof1 = true)
    (hp : RowDone junk (Cell.ofTexts p.bytes0 p.bytes1) v
      (later v.eof0 rest0) (later v.eof1 rest1)) :
    AddFrames.Next m link s₀ p junk s (callsLeft v rest0 rest1 + 1) (.close v.fd1) fun _ =>
      AddFrames.nextRow { v with c1 := newlineChar } := by
  obtain ⟨h2, -, hne⟩ := hset.free
  have h2' : 2 ≤ p.fd1 := h2.trans hset.fd1.1.le
  have hanswer := served_close (m := m) hrun hset.fd1.2.1 h2' link
  rw [← h.fd1] at hanswer
  refine ⟨hanswer.1, fun r s' hserved => ?_⟩
  obtain ⟨hclosed1, hothers⟩ := hanswer.2 r s' hserved
  have hreads : Reads m s₀ p s' { v with c1 := newlineChar } rest0 rest1 := by
    refine ⟨h.fd0, h.fd1, ?_, h.source1.of_eof heof _, fun j hj0 hj1 => ?_⟩
    · rw [hothers _ hne]
      exact h.source0
    · rw [hothers j hj1]
      exact h.others j hj0 hj1
  have hclosed0 : v.eof0 = true → Closed s' p.fd0 := by
    intro htrue
    rw [Closed, hothers _ hne]
    exact hclosed htrue
  exact ⟨_, Nat.lt_succ_self _, AddFrames.At.nextRow hreads hc
    (fun hfalse => absurd (heof.symm.trans hfalse) (by decide)) hclosed0 (fun _ => hclosed1) hp⟩

/-! ## Runs -/

theorem findFreeFd_congr {s s' : Kernel} (h : s.files = s'.files) :
    findFreeFd s.curPcb = findFreeFd s'.curPcb :=
  congrArg (fun fa : ℕ → FsDescriptor =>
    (List.range' fdMinIdx (fdMaxIdx + 1 - fdMinIdx)).find? fun i => (fa i).fileOps.isNone) h

theorem served_open_found {fname : ℕ → UInt8} (hd : m.image.readDentryByName fname = some entry)
    (hreg : entry.ftype = fileTypeReg) (hfd : findFreeFd s.curPcb = some fd)
    (hserved : Served m link s (.open fname) r s') :
    r.value = fd ∧ s'.files = Function.update s.files fd (openedFd m.image entry) := by
  obtain ⟨rfl, rfl⟩ := served_open.mp hserved
  have hx : s.sysOpen m fname = _ := openFile_eq m.image s hd hfd hreg.le
  rw [hx]
  exact ⟨rfl, withFiles_files _ _⟩

theorem AddFrames.At.next (hset : AddFrames.Setup m σ s₀ f0 f1 p) (hrun : Running s)
    {l : AddFrames} (h : AddFrames.At m s₀ p junk s n l) {next : Reply → AddFrames}
    (hact : AddFrames.act f0 f1 junk l = .call q next) :
    AddFrames.Next m link s₀ p junk s n q next := by
  cases h with
  | open0 hs =>
    cases hact
    refine ⟨⟨_, _, served_open.mpr ⟨rfl, rfl⟩⟩, fun r s' hserved => ?_⟩
    obtain ⟨hvalue, hfiles⟩ := served_open_found hset.entry0 hset.reg0
      ((findFreeFd_congr hs).trans hset.fd0) hserved
    rw [hs] at hfiles
    refine ⟨_, Nat.lt_succ_self _, ?_⟩
    dsimp only
    rw [hvalue, if_neg (by omega)]
    exact .open1 hfiles
  | open1 hs =>
    cases hact
    refine ⟨⟨_, _, served_open.mpr ⟨rfl, rfl⟩⟩, fun r s' hserved => ?_⟩
    obtain ⟨hvalue, hfiles⟩ := served_open_found hset.entry1 hset.reg1
      (hset.findFreeFd_opened hs) hserved
    have hne := hset.free.2.2
    let v : Frames := ⟨p.fd0, p.fd1, 0x30, 0x30, false, false, 0, 0, []⟩
    have hreads : Reads m s₀ p s' v p.bytes0 p.bytes1 := by
      refine ⟨rfl, rfl, .more ?_, .more ?_, fun j hj0 hj1 => ?_⟩
      · rw [hfiles, Function.update_of_ne hne, hs, Function.update_self]
        exact hset.delivers0
      · rw [hfiles, Function.update_self]
        exact hset.delivers1
      · rw [hfiles, Function.update_of_ne hj1, hs, Function.update_of_ne hj0]
    have hzero : (0x30 : UInt8) ≠ newlineChar := by decide
    have hat : AddFrames.At m s₀ p junk s' (callsLeft v p.bytes0 p.bytes1)
        (AddFrames.proceed v) := by
      refine .proceed hreads (fun hnl => hzero hnl.1) ⟨[], rfl, ?_⟩
      rw [pending, pending, if_neg hzero, if_neg hzero]
      exact (Cell.ofLines_step 0 _ _).symm
    refine ⟨callsLeft v p.bytes0 p.bytes1, ?_, ?_⟩
    · change 3 * (p.bytes0.length + 1 + (p.bytes1.length + 1)) < _
      omega
    · dsimp only
      rw [hvalue, if_neg (by omega)]
      exact hat
  | read0 h hc hp =>
    cases hact
    exact AddFrames.next_read0 hset h hc hp
  | read1 h hc hp =>
    cases hact
    exact AddFrames.next_read1 hset h hc hp
  | close0 h heof hp =>
    cases hact
    exact AddFrames.next_close0 hset hrun h heof hp
  | close1 h hc hclosed heof hp =>
    cases hact
    exact AddFrames.next_close1 hset hrun h hc hclosed heof hp
  | returned hclosed hothers => cases hact

theorem AddFrames.At.withTty {l : AddFrames} (h : AddFrames.At m s₀ p junk s n l) (y : Tty) :
    AddFrames.At m s₀ p junk { s with tty := y } n l := by
  have hreads : ∀ {v rest0 rest1}, Reads m s₀ p s v rest0 rest1 →
      Reads m s₀ p { s with tty := y } v rest0 rest1 :=
    fun h => ⟨h.fd0, h.fd1, h.source0, h.source1, h.others⟩
  cases h with
  | open0 hs => exact .open0 hs
  | open1 hs => exact .open1 hs
  | read0 h hc hp => exact .read0 (hreads h) hc hp
  | read1 h hc hp => exact .read1 (hreads h) hc hp
  | close0 h heof hp => exact .close0 (hreads h) heof hp
  | close1 h hc hclosed heof hp => exact .close1 (hreads h) hc hclosed heof hp
  | returned hclosed hothers => exact .returned hclosed hothers

structure AddFrames.Inv (m : Machine) (s₀ : Kernel) (p : FrameFiles) (junk : BlinkStruct) (n : ℕ)
    (c : Config AddFrames Call Reply Kernel) : Prop where
  activity : Activity m s₀ c.state
  place : AddFrames.At m s₀ p junk c.state n c.loc

end KudOS.User
