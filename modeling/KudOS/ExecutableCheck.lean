import KudOS.FileLookup
import KudOS.ProgramLoading

/-!
# The check for an executable

`check_executable` reads 52 bytes of the file into a buffer on the stack and ignores
whether that worked. It takes inode number 0 for no file, does not look at the type of
the entry, and lets the entry point be the end of the user page.
-/

namespace KudOS

namespace FsImage

/-- `check_executable` with the word `entry_addr` points to: the value returned, and the
word after the call. -/
def checkExecutableInto (img : FsImage) (header name : ℕ → UInt8) (entryAddr : ℕ) : ℤ × ℕ :=
  match img.readDentryByName name with
  | none => (-1, entryAddr)
  | some d =>
    if d.inode = 0 then (-1, entryAddr)
    else
      let h := (img.readData d.inode 0 header elfHeaderSize).2
      if ¬ (h 0 = 0x7F ∧ h 1 = 0x45 ∧ h 2 = 0x4C ∧ h 3 = 0x46) then (-1, entryAddr)
      else if wordAt h 24 < pageVirtAddr ∨ wordAt h 24 > pageVirtAddr + pageSize4MB then
        (-1, entryAddr)
      else (0, wordAt h 24)

/-- The two descriptions of `check_executable` agree. -/
theorem checkExecutableInto_eq (img : FsImage) (header name : ℕ → UInt8) (entryAddr : ℕ) :
    img.checkExecutableInto header name entryAddr =
      (checkExecutable img header name).elim (-1, entryAddr) fun entry => (0, entry) := by
  unfold checkExecutableInto checkExecutable
  cases img.readDentryByName name with
  | none => rfl
  | some d =>
    dsimp only
    split
    · rfl
    split
    · rfl
    split <;> rfl

/-! ## Executables -/

/-- The images hold the same entries, inodes and data; other memory may differ. -/
structure SameInside (img' img : FsImage) : Prop where
  numDirEntries : img'.numDirEntries = img.numDirEntries
  numInodes : img'.numInodes = img.numInodes
  numDataBlocks : img'.numDataBlocks = img.numDataBlocks
  dirEntries : ∀ i < img.numDirEntries, img'.dirEntries i = img.dirEntries i
  inodes : ∀ k < img.numInodes, img'.inodes k = img.inodes k
  data : ∀ a < img.numDataBlocks * blockSize, img'.data a = img.data a

variable {img img' : FsImage} {fname : ℕ → UInt8} {str : List UInt8} {d : Dentry} {w : ℕ}

theorem LastEntry.unique {d' : Dentry} (h : img.LastEntry str d) (h' : img.LastEntry str d') :
    d = d' := by
  obtain ⟨i, hi, hname, rfl, hlast⟩ := h
  obtain ⟨j, hj, hname', rfl, hlast'⟩ := h'
  rcases Nat.lt_trichotomy i j with hlt | rfl | hlt
  · exact absurd hname' (hlast j hlt hj)
  · rfl
  · exact absurd hname (hlast' i hlt hi)

theorem LastEntry.length_le (h : img.LastEntry str d) : str.length ≤ maxFnameLength := by
  obtain ⟨i, _, rfl, _⟩ := h
  exact (img.dirEntries i).length_name_le

/-! ## What the check sees -/

theorem SameInside.refl (img : FsImage) : SameInside img img :=
  ⟨rfl, rfl, rfl, fun _ _ => rfl, fun _ _ => rfl, fun _ _ => rfl⟩

/-- A stack on which a shorter file passes for an executable. -/
def elfHeader : ℕ → UInt8 := cString shellHeader

end FsImage
end KudOS
