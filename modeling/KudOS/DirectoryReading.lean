import KudOS.DescriptorLaw

/-!
# Reading a directory

Every read from a directory delivers the name of the next entry. `read_dir` takes the
length of the name from `strlen`, which for a name of 32 bytes runs on into the type of
the entry, and it does not look at the size of the buffer.
-/

namespace KudOS

/-! ## The length of a name -/

theorem strlenFrom_eq (s : ℕ → UInt8) (n i : ℕ) :
    strlenFrom s n i = i + (textFrom 0 s n i).length := by
  induction n generalizing i with
  | zero => rfl
  | succ n ih =>
    rw [strlenFrom, textFrom]
    split
    · rfl
    · rw [ih (i + 1), List.length_cons]
      omega

namespace Dentry

variable (e : Dentry)

theorem byte_of_lt {i : ℕ} (hi : i < maxFnameLength) : e.byte i = e.fname i := if_pos hi

theorem textFrom_byte : textFrom 0 e.byte maxFnameLength 0 = e.name :=
  textFrom_congr fun k _ hk => e.byte_of_lt (by omega)

/-- The bytes of the type end the text behind a full name. -/
theorem length_textFrom_ftype (ht : e.ftype ≤ fileTypeReg) :
    (textFrom 0 e.byte 4 maxFnameLength).length = if e.ftype = fileTypeRtc then 0 else 1 := by
  have hbyte : ∀ j, e.byte (maxFnameLength + j) = (e.ftype >>> (8 * j)).toUInt8 := by
    intro j
    rw [byte, if_neg (by omega), Nat.add_sub_cancel_left]
  have h0 : e.byte maxFnameLength = (e.ftype >>> (8 * 0)).toUInt8 := hbyte 0
  simp only [textFrom, h0, hbyte 1]
  rw [fileTypeReg] at ht
  have hcases : e.ftype = 0 ∨ e.ftype = 1 ∨ e.ftype = 2 := by omega
  rcases hcases with h | h | h <;> simp [h, fileTypeRtc]

/-- `strlen` counts one byte too many for a directory or regular file whose name fills
its field. -/
theorem nameLength_eq (ht : e.ftype ≤ fileTypeReg) : e.nameLength =
    if e.name.length = maxFnameLength ∧ e.ftype ≠ fileTypeRtc then maxFnameLength + 1
    else e.name.length := by
  rw [nameLength, strlenFrom_eq, Nat.zero_add, textFrom_add, textFrom_byte]
  by_cases hfull : e.name.length = maxFnameLength
  · rw [if_pos hfull, List.length_append, Nat.zero_add, e.length_textFrom_ftype ht, hfull]
    by_cases h0 : e.ftype = fileTypeRtc
    · rw [if_pos h0, if_neg fun h => h.2 h0, Nat.add_zero]
    · rw [if_neg h0, if_pos ⟨rfl, h0⟩]
  · rw [if_neg hfull, if_neg fun h => hfull h.1]

/-- The bytes in front of the terminator are the name. -/
theorem map_byte_name : (List.range e.name.length).map e.byte = e.name := by
  refine List.ext_getElem (by simp) fun i _ hi => ?_
  have hchar := getElem_textFrom (z := 0) (a := e.byte) maxFnameLength 0 i
  simp only [textFrom_byte, Nat.zero_add] at hchar
  rw [List.getElem_map, List.getElem_range, hchar hi]

end Dentry

namespace Kernel

variable {img : FsImage} {s : Kernel} {fd : ℕ}

/-! ## Sequences of reads -/

def afterReads (img : FsImage) (fd : ℕ) (s : Kernel) (sizes : List ℕ) : Kernel :=
  sizes.foldl (fun s (n : ℕ) => (s.readFile img fd n).2) s

/-- What a directory read delivers: the names of the entries in turn, then nothing, and
never more than was asked for. The `k`-th read comes after the reads `sizes.take k`. -/
structure DirectoryLaw (img : FsImage) (fd : ℕ) (s : Kernel) (sizes : List ℕ) : Prop where
  name : ∀ k n : ℕ, sizes[k]? = some n → k < img.numDirEntries → maxFnameLength ≤ n →
    let t := s.afterReads img fd (sizes.take k)
    t.readFile img fd n = ((img.dirEntries k).name, t.withFiles (t.movedTo fd (k + 1)))
  ended : ∀ k n : ℕ, sizes[k]? = some n → img.numDirEntries ≤ k →
    let t := s.afterReads img fd (sizes.take k)
    t.readFile img fd n = ([], t)
  bounded : ∀ k n : ℕ, sizes[k]? = some n →
    ((s.afterReads img fd (sizes.take k)).readFile img fd n).1.length ≤ n

/-- The name fits a buffer of `n` bytes, and has a terminator if the entry is not a
clock. -/
def NameFits (e : Dentry) (n : ℕ) : Prop :=
  e.name.length ≤ n ∧ ¬ (e.name.length = maxFnameLength ∧ e.ftype ≠ fileTypeRtc)

/-- The descriptor is open on a directory and stands at entry `p`. -/
structure DirectoryAt (s : Kernel) (fd p : ℕ) : Prop where
  inodePtr : (s.files fd).inodePtr = 0
  filePosition : (s.files fd).filePosition = p

theorem DirectoryAt.readFile {p : ℕ} (h : s.DirectoryAt fd p) (img : FsImage) (n : ℤ) :
    s.readFile img fd n = if p < img.numDirEntries then
      ((List.range (img.dirEntries p).nameLength).map (img.dirEntries p).byte,
        s.withFiles (s.movedTo fd (p + 1)))
      else ([], s) := by
  have hptr : (s.curPcb.fileArray fd).inodePtr = 0 := h.inodePtr
  have hpos : (s.curPcb.fileArray fd).filePosition = p := h.filePosition
  rw [Kernel.readFile, if_pos hptr, readDir, hpos]
  rfl

theorem DirectoryAt.moved {p : ℕ} (h : s.DirectoryAt fd p) (q : ℕ) :
    (s.withFiles (s.movedTo fd q)).DirectoryAt fd q where
  inodePtr := by
    rw [withFiles_files, movedTo, Function.update_self]
    exact h.inodePtr
  filePosition := by rw [withFiles_files, movedTo, Function.update_self]

theorem DirectoryAt.next {p : ℕ} (h : s.DirectoryAt fd p) (hp : p ≤ img.numDirEntries) (n : ℤ) :
    (s.readFile img fd n).2.DirectoryAt fd (min (p + 1) img.numDirEntries) := by
  rw [h.readFile]
  by_cases hlt : p < img.numDirEntries
  · rw [if_pos hlt, Nat.min_eq_left hlt]
    exact h.moved (p + 1)
  · have hend : min (p + 1) img.numDirEntries = p := by omega
    rwa [if_neg hlt, hend]

theorem DirectoryAt.afterReads {p : ℕ} (h : s.DirectoryAt fd p) (hp : p ≤ img.numDirEntries)
    (sizes : List ℕ) :
    (s.afterReads img fd sizes).DirectoryAt fd (min (p + sizes.length) img.numDirEntries) := by
  induction sizes generalizing s p with
  | nil =>
    have hstart : min (p + 0) img.numDirEntries = p := by omega
    rw [List.length_nil, hstart]
    exact h
  | cons n sizes ih =>
    have hrest := ih (h.next hp n) (Nat.min_le_right _ _)
    have hcount : min (min (p + 1) img.numDirEntries + sizes.length) img.numDirEntries =
        min (p + (n :: sizes).length) img.numDirEntries := by
      rw [List.length_cons]
      omega
    rwa [hcount] at hrest

/-- The position in front of the `k`-th read. -/
theorem DirectoryAt.take {sizes : List ℕ} {k n : ℕ} (h : s.DirectoryAt fd 0) (img : FsImage)
    (hk : sizes[k]? = some n) :
    (s.afterReads img fd (sizes.take k)).DirectoryAt fd (min k img.numDirEntries) := by
  obtain ⟨hlt, -⟩ := List.getElem?_eq_some_iff.mp hk
  have hat := h.afterReads (Nat.zero_le img.numDirEntries) (sizes.take k)
  rwa [List.length_take, Nat.min_eq_left hlt.le, Nat.zero_add] at hat

theorem DirectoryAt.law_iff (htypes : img.TypesOk) (h : s.DirectoryAt fd 0) (sizes : List ℕ) :
    DirectoryLaw img fd s sizes ↔ ∀ k n : ℕ, sizes[k]? = some n → k < img.numDirEntries →
      NameFits (img.dirEntries k) n := by
  constructor
  · intro hlaw k n hk hlt
    have hat := h.take img hk
    rw [Nat.min_eq_left hlt.le] at hat
    have hread := hat.readFile img n
    rw [if_pos hlt] at hread
    have hlen := (img.dirEntries k).nameLength_eq (htypes k hlt)
    have hmax := (img.dirEntries k).length_name_le
    have hle := hlaw.bounded k n hk
    rw [hread, List.length_map, List.length_range, hlen] at hle
    by_cases hfull : (img.dirEntries k).name.length = maxFnameLength ∧
        (img.dirEntries k).ftype ≠ fileTypeRtc
    · rw [if_pos hfull] at hle
      have hname := congrArg Prod.fst (hlaw.name k n hk hlt (by omega))
      rw [hread] at hname
      have hcount := congrArg List.length hname
      rw [List.length_map, List.length_range, hlen, if_pos hfull, hfull.1] at hcount
      omega
    · rw [if_neg hfull] at hle
      exact ⟨hle, hfull⟩
  · intro hfits
    have hbytes : ∀ k n : ℕ, sizes[k]? = some n → k < img.numDirEntries →
        (List.range (img.dirEntries k).nameLength).map (img.dirEntries k).byte =
          (img.dirEntries k).name := by
      intro k n hk hlt
      rw [(img.dirEntries k).nameLength_eq (htypes k hlt), if_neg (hfits k n hk hlt).2,
        Dentry.map_byte_name]
    refine ⟨fun k n hk hlt _ => ?_, fun k n hk hle => ?_, fun k n hk => ?_⟩
    · have hat := h.take img hk
      rw [Nat.min_eq_left hlt.le] at hat
      dsimp only
      rw [hat.readFile, if_pos hlt, hbytes k n hk hlt]
    · have hat := h.take img hk
      rw [Nat.min_eq_right hle] at hat
      dsimp only
      rw [hat.readFile, if_neg (Nat.lt_irrefl _)]
    · rw [(h.take img hk).readFile]
      rcases Nat.lt_or_ge k img.numDirEntries with hlt | hle
      · rw [Nat.min_eq_left hlt.le, if_pos hlt, hbytes k n hk hlt]
        exact (hfits k n hk hlt).1
      · rw [Nat.min_eq_right hle, if_neg (Nat.lt_irrefl _)]
        exact Nat.zero_le n

/-! ## A directory that was just opened -/

variable {fname : ℕ → UInt8} {d : Dentry}

theorem directoryAt_opened (hd : img.readDentryByName fname = some d)
    (hdir : d.ftype = fileTypeDir) (hfd : findFreeFd s.curPcb = some fd) :
    (s.openFile img fname).2.DirectoryAt fd 0 := by
  have hopen := openFile_eq img s hd hfd (by rw [hdir]; decide)
  have hfile : (s.openFile img fname).2.files fd = ⟨some .fileOps, 0, 0, fileInUse⟩ := by
    rw [hopen, withFiles_files, Function.update_self, openedFd, hdir]
    rfl
  exact ⟨by rw [hfile], by rw [hfile]⟩

/-- Reading a directory delivers the names of its entries exactly if every name fits
the buffer of its read and none but that of a clock fills its field. -/
theorem directory_enumeration_iff (htypes : img.TypesOk)
    (hd : img.readDentryByName fname = some d) (hdir : d.ftype = fileTypeDir)
    (hfd : findFreeFd s.curPcb = some fd) (sizes : List ℕ) :
    DirectoryLaw img fd (s.openFile img fname).2 sizes ↔
      ∀ k n : ℕ, sizes[k]? = some n → k < img.numDirEntries → NameFits (img.dirEntries k) n :=
  (directoryAt_opened hd hdir hfd).law_iff htypes sizes

/-- A directory with an entry for itself and a second entry. -/
def dirImage (e : Dentry) : FsImage :=
  { shellImage with
    numDirEntries := 2
    dirEntries := fun i => if i = 0 then ⟨cString (literal "."), fileTypeDir, 0⟩ else e }

theorem readDentryByName_dirImage (e : Dentry)
    (hne : strncmp (cString (literal ".")) e.fname maxFnameLength ≠ 0) :
    (dirImage e).readDentryByName (cString (literal ".")) =
      some ⟨cString (literal "."), fileTypeDir, 0⟩ := by
  have hname : strncmp (cString (literal ".")) (cString (literal ".")) maxFnameLength = 0 := by
    decide +kernel
  change (if strncmp (cString (literal ".")) e.fname maxFnameLength = 0 then some e
    else if strncmp (cString (literal ".")) (cString (literal ".")) maxFnameLength = 0 then some _
    else none) = _
  rw [if_neg hne, if_pos hname]
  rfl

/-- `ls` in a directory with the shell. -/
theorem shell_listed : DirectoryLaw (dirImage ⟨cString shellCommand, fileTypeReg, 1⟩) 2
    ((bootKernel.pcbInit 1).openFile (dirImage ⟨cString shellCommand, fileTypeReg, 1⟩)
      (cString (literal "."))).2 [32, 32, 32] := by
  have htypes : (dirImage ⟨cString shellCommand, fileTypeReg, 1⟩).TypesOk := by
    intro i _
    rw [dirImage]
    dsimp only
    split <;> decide
  have hfd : findFreeFd (bootKernel.pcbInit 1).curPcb = some 2 := rfl
  refine (directory_enumeration_iff htypes (readDentryByName_dirImage _ (by decide +kernel)) rfl
    hfd [32, 32, 32]).mpr fun k n hk hlt => ?_
  have hname : ∀ i < 2, NameFits ((dirImage ⟨cString shellCommand, fileTypeReg, 1⟩).dirEntries i)
      32 := by
    unfold NameFits
    decide +kernel
  have hn : n = 32 := by
    have hmem : n ∈ [32, 32, 32] := List.mem_of_getElem? hk
    simpa using hmem
  rw [hn]
  exact hname k hlt

/-- `ls` with its buffer of 32 bytes and a name of 32 bytes. -/
theorem longName_not_listed :
    ¬ DirectoryLaw (dirImage
        ⟨cString (literal "verylargetxtwithverylongname.txt"), fileTypeReg, 1⟩) 2
      ((bootKernel.pcbInit 1).openFile (dirImage
        ⟨cString (literal "verylargetxtwithverylongname.txt"), fileTypeReg, 1⟩)
        (cString (literal "."))).2 [32, 32] := by
  have htypes : (dirImage
      ⟨cString (literal "verylargetxtwithverylongname.txt"), fileTypeReg, 1⟩).TypesOk := by
    intro i _
    rw [dirImage]
    dsimp only
    split <;> decide
  intro h
  have hfd : findFreeFd (bootKernel.pcbInit 1).curPcb = some 2 := rfl
  have hat := directoryAt_opened
    (readDentryByName_dirImage ⟨cString (literal "verylargetxtwithverylongname.txt"),
      fileTypeReg, 1⟩ (by decide +kernel)) rfl hfd
  have hfits := (hat.law_iff htypes [32, 32]).mp h 1 32 rfl (by decide)
  exact hfits.2 (by decide +kernel)

end Kernel
end KudOS
