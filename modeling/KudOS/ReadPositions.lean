import KudOS.FileReading

/-!
# Positions in regular files

`read_data_one` delivers what was asked for up to the end of the file and moves the
position by as much, whatever the layout of the blocks. The position of a descriptor
therefore adds up the counts that its reads returned.
-/

namespace KudOS

namespace FsImage

/-- The counts that reads of the given sizes return from position `p` on. -/
def readCounts (ino : Inode) : ℕ → List ℕ → List ℕ
  | _, [] => []
  | p, n :: ns => min n (ino.length - p) :: readCounts ino (advance ino p n) ns

/-- The position after reads of the given sizes. -/
def endPosition (ino : Inode) (p : ℕ) (sizes : List ℕ) : ℕ := sizes.foldl (advance ino) p

variable {ino : Inode} {p : ℕ}

theorem advance_le (hp : p ≤ ino.length) (n : ℕ) : advance ino p n ≤ ino.length := by
  rw [advance]
  omega

theorem endPosition_le (hp : p ≤ ino.length) (sizes : List ℕ) :
    endPosition ino p sizes ≤ ino.length := by
  induction sizes generalizing p with
  | nil => exact hp
  | cons n ns ih => exact ih (advance_le hp n)

theorem sum_readCounts (sizes : List ℕ) :
    p + (readCounts ino p sizes).sum = endPosition ino p sizes := by
  induction sizes generalizing p with
  | nil => rfl
  | cons n ns ih =>
    rw [readCounts, List.sum_cons, ← Nat.add_assoc]
    exact ih

theorem readCounts_eq_zero (hp : ino.length ≤ p) {sizes : List ℕ} {c : ℕ}
    (hc : c ∈ readCounts ino p sizes) : c = 0 := by
  induction sizes generalizing p with
  | nil => cases hc
  | cons n ns ih =>
    rcases List.mem_cons.mp hc with rfl | hrest
    · omega
    · refine ih ?_ hrest
      rw [advance]
      omega

/-- Once a request was answered with 0, all later ones are. -/
theorem readCounts_ended {sizes : List ℕ} {j k n c : ℕ} (hjk : j < k) (hn : sizes[j]? = some n)
    (hpos : n ≠ 0) (hj : (readCounts ino p sizes)[j]? = some 0)
    (hk : (readCounts ino p sizes)[k]? = some c) : c = 0 := by
  induction sizes generalizing p j k with
  | nil => cases hn
  | cons m ms ih =>
    obtain ⟨k, rfl⟩ : ∃ i, k = i + 1 := ⟨k - 1, by omega⟩
    rw [readCounts, List.getElem?_cons_succ] at hk
    cases j with
    | zero =>
      obtain rfl : m = n := Option.some.inj hn
      have hzero : min m (ino.length - p) = 0 := Option.some.inj hj
      refine readCounts_eq_zero ?_ (List.mem_of_getElem? hk)
      rw [advance]
      omega
    | succ j =>
      rw [readCounts, List.getElem?_cons_succ] at hj
      exact ih (by omega) hn hj hk

end FsImage

namespace Kernel

variable {img : FsImage} {s : Kernel} {fd : ℕ} {d : Dentry} {p : ℕ}

/-- The inode number `read_data_one` computes from a descriptor. -/
def resolvedInode (img : FsImage) (f : FsDescriptor) : ℕ :=
  dec32 ((f.inodePtr + (wordSize - img.fsStart)) % wordSize / blockSize)

/-- The descriptor is open on the regular file of the entry `d` and stands at `p`. -/
structure RegularAt (img : FsImage) (s : Kernel) (fd : ℕ) (d : Dentry) (p : ℕ) : Prop where
  entry : ∃ i < img.numDirEntries, img.dirEntries i = d
  regular : d.ftype = fileTypeReg
  inodePtr : (s.files fd).inodePtr = (openedFd img d).inodePtr
  filePosition : (s.files fd).filePosition = p
  le_length : p ≤ (img.inodes d.inode).length

/-- Calls of `read_data_one` with the given sizes: the counts returned, and the state. -/
def readsOne (img : FsImage) (fd : ℕ) : Kernel → List ℕ → List ℕ × Kernel
  | s, [] => ([], s)
  | s, n :: ns =>
    let (out, s) := s.readDataOne img fd n
    let (counts, s) := readsOne img fd s ns
    (out.length :: counts, s)

/-- One read of `n` bytes. -/
structure ReadLaw (img : FsImage) (s : Kernel) (fd : ℕ) (d : Dentry) (p n : ℕ) : Prop where
  count : (s.readDataOne img fd n).1.length = min n ((img.inodes d.inode).length - p)
  inode : resolvedInode img (s.files fd) = d.inode
  files : ∀ i j, ((s.readDataOne img fd n).2.pcbs i).fileArray j =
    if i = s.cur ∧ j = fd then
      { s.files fd with filePosition := p + min n ((img.inodes d.inode).length - p) }
    else (s.pcbs i).fileArray j

/-- A sequence of reads. -/
structure ReadsLaw (img : FsImage) (s : Kernel) (fd : ℕ) (d : Dentry) (p : ℕ) (sizes : List ℕ) :
    Prop where
  le_length : ((readsOne img fd s sizes).2.files fd).filePosition ≤ (img.inodes d.inode).length
  sum : p + (readsOne img fd s sizes).1.sum = ((readsOne img fd s sizes).2.files fd).filePosition
  ended : ∀ j k n c : ℕ, j < k → sizes[j]? = some n → n ≠ 0 →
    (readsOne img fd s sizes).1[j]? = some 0 → (readsOne img fd s sizes).1[k]? = some c → c = 0

/-! ## One read -/

theorem openedFd_regular (img : FsImage) (hreg : d.ftype = fileTypeReg) :
    openedFd img d = ⟨some .fileOps, inodeAddr img d.inode, 0, fileInUse⟩ := by
  rw [openedFd, hreg]
  rfl

theorem RegularAt.inode_lt (h : RegularAt img s fd d p) (himg : img.WellFormed) :
    d.inode < img.numInodes := by
  obtain ⟨i, hi, hd⟩ := h.entry
  rw [← hd]
  exact himg.inode_lt i hi (hd ▸ h.regular)

theorem RegularAt.inodePtr_eq (h : RegularAt img s fd d p) :
    (s.files fd).inodePtr = inodeAddr img d.inode := by
  rw [h.inodePtr, openedFd_regular img h.regular]

theorem RegularAt.read (himg : img.WellFormed) (h : RegularAt img s fd d p) (n : ℕ) :
    (s.readDataOne img fd n).1.length = min n ((img.inodes d.inode).length - p) ∧
      (s.readDataOne img fd n).2 =
        s.withFiles (s.movedTo fd (FsImage.advance (img.inodes d.inode) p n)) := by
  rw [readDataOne_eq himg (h.inode_lt himg) h.inodePtr_eq h.filePosition n]
  exact ⟨by rw [List.length_map, List.length_range], rfl⟩

theorem RegularAt.moved (h : RegularAt img s fd d p) {q : ℕ}
    (hq : q ≤ (img.inodes d.inode).length) :
    RegularAt img (s.withFiles (s.movedTo fd q)) fd d q where
  entry := h.entry
  regular := h.regular
  inodePtr := by
    rw [withFiles_files, movedTo, Function.update_self]
    exact h.inodePtr
  filePosition := by rw [withFiles_files, movedTo, Function.update_self]
  le_length := hq

theorem RegularAt.readLaw (himg : img.WellFormed) (h : RegularAt img s fd d p) (n : ℕ) :
    ReadLaw img s fd d p n where
  count := (h.read himg n).1
  inode := by
    rw [resolvedInode, h.inodePtr_eq]
    exact (inodeAddr_spec himg (h.inode_lt himg)).2
  files i j := by
    rw [(h.read himg n).2]
    by_cases hi : i = s.cur
    · subst hi
      change (s.withFiles _).files j = _
      rw [withFiles_files, movedTo]
      by_cases hj : j = fd
      · subst hj
        rw [Function.update_self, if_pos ⟨rfl, rfl⟩]
        rfl
      · rw [Function.update_of_ne hj, if_neg fun hc => hj hc.2]
        rfl
    · rw [withFiles_pcbs_of_ne _ _ hi, if_neg fun hc => hi hc.1]

/-! ## Sequences of reads -/

theorem withFiles_movedTo_movedTo (s : Kernel) (fd p q : ℕ) :
    (s.withFiles (s.movedTo fd p)).withFiles ((s.withFiles (s.movedTo fd p)).movedTo fd q) =
      s.withFiles (s.movedTo fd q) := by
  rw [withFiles_withFiles, movedTo, withFiles_files, movedTo, Function.update_self,
    Function.update_idem, movedTo]

theorem RegularAt.reads (himg : img.WellFormed) (h : RegularAt img s fd d p) (sizes : List ℕ) :
    readsOne img fd s sizes = (FsImage.readCounts (img.inodes d.inode) p sizes,
      s.withFiles (s.movedTo fd (FsImage.endPosition (img.inodes d.inode) p sizes))) := by
  induction sizes generalizing s p with
  | nil =>
    have hsame : s.movedTo fd p = s.files := by
      rw [← h.filePosition]
      exact movedTo_self s fd
    rw [FsImage.endPosition, List.foldl_nil, hsame, withFiles_self]
    rfl
  | cons n ns ih =>
    obtain ⟨hcount, hstate⟩ := h.read himg n
    have hrest := ih (h.moved (FsImage.advance_le h.le_length n))
    rw [withFiles_movedTo_movedTo] at hrest
    rw [readsOne]
    simp only [hstate, hrest, hcount]
    rfl

theorem RegularAt.readsLaw (himg : img.WellFormed) (h : RegularAt img s fd d p)
    (sizes : List ℕ) : ReadsLaw img s fd d p sizes := by
  have hpos : ((readsOne img fd s sizes).2.files fd).filePosition =
      FsImage.endPosition (img.inodes d.inode) p sizes := by
    rw [h.reads himg, withFiles_files, movedTo, Function.update_self]
  refine ⟨?_, ?_, fun j k n c hjk hn hne hj hk => ?_⟩
  · rw [hpos]
    exact FsImage.endPosition_le h.le_length sizes
  · rw [hpos, h.reads himg]
    exact FsImage.sum_readCounts sizes
  · rw [h.reads himg] at hj hk
    exact FsImage.readCounts_ended hjk hn hne hj hk

/-- What reads from an open regular file return, and what they do to descriptors. -/
theorem regular_reads (himg : img.WellFormed) (h : RegularAt img s fd d p) :
    (∀ n, ReadLaw img s fd d p n) ∧ ∀ sizes, ReadsLaw img s fd d p sizes :=
  ⟨h.readLaw himg, h.readsLaw himg⟩

/-! ## A file that was just opened -/

variable {fname : ℕ → UInt8}

/-- A file that was just opened stands at its beginning. -/
theorem regularAt_opened (hd : img.readDentryByName fname = some d)
    (hreg : d.ftype = fileTypeReg) (hfd : findFreeFd s.curPcb = some fd) :
    RegularAt img (s.openFile img fname).2 fd d 0 := by
  have hfile : (s.openFile img fname).2.files fd = openedFd img d := by
    rw [openFile_eq img s hd hfd (by rw [hreg]), withFiles_files, Function.update_self]
  refine ⟨?_, hreg, by rw [hfile], ?_, Nat.zero_le _⟩
  · rcases img.readDentryByName_cases fname with ⟨-, hnone⟩ | ⟨i, hi, -, hsome⟩
    · rw [hnone] at hd
      cases hd
    · exact ⟨i, hi, Option.some.inj (hsome.symm.trans hd)⟩
  · rw [hfile, openedFd_regular img hreg]

/-- Reads from the file of the shell, up to its end and beyond. -/
theorem shell_reads :
    ReadLaw shellImage ((bootKernel.pcbInit 1).openFile shellImage (cString shellCommand)).2 2
      ⟨cString shellCommand, fileTypeReg, 1⟩ 0 40 ∧
    ReadsLaw shellImage ((bootKernel.pcbInit 1).openFile shellImage (cString shellCommand)).2 2
      ⟨cString shellCommand, fileTypeReg, 1⟩ 0 [40, 100, 7] :=
  have hfd : findFreeFd (bootKernel.pcbInit 1).curPcb = some 2 := rfl
  have hopen := regularAt_opened readDentryByName_shellImage rfl hfd
  ⟨(regular_reads shellImage_wellFormed hopen).1 40,
    (regular_reads shellImage_wellFormed hopen).2 [40, 100, 7]⟩

end Kernel
end KudOS
