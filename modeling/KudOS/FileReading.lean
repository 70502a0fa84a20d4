import KudOS.DescriptorLaw

/-!
# Reading regular files

The content of a file is spread over the data blocks its inode lists. `read_data_one`
looks up the block of the current position once and then counts block numbers up, so a
read delivers the content as long as the blocks it runs through are consecutive.
-/

namespace KudOS

namespace FsImage

def contentByte (img : FsImage) (ino : Inode) (i : ℕ) : UInt8 :=
  img.dataByte (ino.dataBlocks (i / blockSize)) (i % blockSize)

/-- The image lies in memory and its numbers are in range. -/
structure WellFormed (img : FsImage) : Prop where
  fits : img.fsStart + (1 + img.numInodes + img.numDataBlocks) * blockSize ≤ wordSize
  entries_le : img.numDirEntries ≤ 63
  ftype_le : ∀ i < img.numDirEntries, (img.dirEntries i).ftype ≤ fileTypeReg
  inode_lt : ∀ i < img.numDirEntries, (img.dirEntries i).ftype = fileTypeReg →
    (img.dirEntries i).inode < img.numInodes
  length_le : ∀ k < img.numInodes, (img.inodes k).length ≤ 1023 * blockSize
  block_lt : ∀ k < img.numInodes, ∀ j, j * blockSize < (img.inodes k).length →
    (img.inodes k).dataBlocks j < img.numDataBlocks

/-- Byte `q` as a read that started at `p` finds it. -/
def steppedByte (img : FsImage) (ino : Inode) (p q : ℕ) : UInt8 :=
  img.dataByte (ino.dataBlocks (p / blockSize) + (q / blockSize - p / blockSize)) (q % blockSize)

/-- Block numbers count modulo 2^20, as addresses are 32-bit words. -/
theorem dataByte_congr (img : FsImage) {n n' : ℕ} (h : n % 2 ^ 20 = n' % 2 ^ 20) (off : ℕ) :
    img.dataByte n off = img.dataByte n' off := by
  have haddr : (n * blockSize + off) % wordSize = (n' * blockSize + off) % wordSize := by
    rw [blockSize, wordSize]
    omega
  rw [dataByte, dataByte, haddr]

end FsImage

/-! ## One read -/

/-- The loop of `read_data_one` after `j` iterations. -/
structure ReadCursor.After (img : FsImage) (ino : Inode) (p j : ℕ) (c : ReadCursor) : Prop where
  offset : c.offset = p + j
  datablockNumber : c.datablockNumber % 2 ^ 20 =
    (ino.dataBlocks (p / blockSize) + ((p + j) / blockSize - p / blockSize)) % 2 ^ 20
  curOffset : c.curOffset = (p + j) % blockSize
  filePosition : c.filePosition = p + j
  out : c.out = (List.range j).map fun i => img.steppedByte ino p (p + i)

theorem ReadCursor.After.next {img : FsImage} {ino : Inode} {p j : ℕ} {c : ReadCursor}
    (h : c.After img ino p j) : (c.next img).After img ino p (j + 1) := by
  have hbyte : img.dataByte c.datablockNumber c.curOffset = img.steppedByte ino p (p + j) := by
    rw [h.curOffset]
    exact img.dataByte_congr h.datablockNumber _
  have hout : c.out ++ [img.dataByte c.datablockNumber c.curOffset] =
      (List.range (j + 1)).map fun i => img.steppedByte ino p (p + i) := by
    rw [hbyte, h.out, List.range_succ, List.map_append]
    rfl
  have hoff := h.curOffset
  have hnum := h.datablockNumber
  rw [blockSize] at hoff hnum
  unfold ReadCursor.next
  dsimp only
  by_cases hend : (c.curOffset + 1) % blockSize = 0
  · rw [if_pos hend]
    rw [blockSize] at hend
    refine ⟨?_, ?_, ?_, ?_, hout⟩
    · simp only [h.offset]
      omega
    · simp only [inc32, blockSize]
      omega
    · simp only [blockSize]
      omega
    · simp only [h.filePosition]
      omega
  · rw [if_neg hend]
    rw [blockSize] at hend
    refine ⟨?_, ?_, ?_, ?_, hout⟩
    · simp only [h.offset]
      omega
    · simp only [blockSize]
      omega
    · simp only [blockSize]
      omega
    · simp only [h.filePosition]
      omega

theorem ReadCursor.After.loop {img : FsImage} {ino : Inode} {p : ℕ} (n : ℕ) {j : ℕ}
    {c : ReadCursor} (h : c.After img ino p j) :
    (c.loop img ino.length n).After img ino p (j + min n (ino.length - (p + j))) := by
  induction n generalizing j c with
  | zero => simpa [ReadCursor.loop] using h
  | succ n ih =>
    rw [ReadCursor.loop, h.offset]
    by_cases hlt : p + j < ino.length
    · rw [if_pos hlt]
      have hnext := ih h.next
      have hcount : j + 1 + min n (ino.length - (p + (j + 1))) =
          j + min (n + 1) (ino.length - (p + j)) := by omega
      rwa [hcount] at hnext
    · rw [if_neg hlt]
      have hcount : j + min (n + 1) (ino.length - (p + j)) = j := by omega
      rwa [hcount]

namespace Kernel

variable {img : FsImage} {s : Kernel} {fd k : ℕ}

/-- The address `open_file` stores for inode `k`. -/
def inodeAddr (img : FsImage) (k : ℕ) : ℕ := (img.fsStart + (k + 1) * blockSize) % wordSize

/-- The address leads back to the inode, and is not NULL. -/
theorem inodeAddr_spec (himg : img.WellFormed) (hk : k < img.numInodes) :
    inodeAddr img k ≠ 0 ∧
      dec32 ((inodeAddr img k + (wordSize - img.fsStart)) % wordSize / blockSize) = k := by
  have hfits := himg.fits
  rw [blockSize, wordSize] at hfits
  have hpos : (k + 2) * 4096 ≤ (1 + img.numInodes + img.numDataBlocks) * 4096 :=
    Nat.mul_le_mul_right 4096 (by omega)
  have haddr : inodeAddr img k = img.fsStart + (k + 1) * 4096 := by
    rw [inodeAddr, blockSize, wordSize]
    exact Nat.mod_eq_of_lt (by omega)
  rw [haddr, blockSize, wordSize, dec32]
  constructor <;> omega

theorem readDataOne_eq (himg : img.WellFormed) (hk : k < img.numInodes)
    (hptr : (s.files fd).inodePtr = inodeAddr img k) {p : ℕ}
    (hp : (s.files fd).filePosition = p) (n : ℕ) :
    s.readDataOne img fd n =
      ((List.range (min n ((img.inodes k).length - p))).map
        (fun i => img.steppedByte (img.inodes k) p (p + i)),
      s.withFiles (s.movedTo fd (p + min n ((img.inodes k).length - p)))) := by
  obtain ⟨-, hinode⟩ := inodeAddr_spec himg hk
  have hstart : ReadCursor.After img (img.inodes k) p 0
      ⟨p, (img.inodes k).dataBlocks (p / blockSize), p % blockSize, p, []⟩ :=
    ⟨rfl, by simp, rfl, rfl, rfl⟩
  have hloop := hstart.loop n
  rw [Nat.zero_add, Nat.add_zero] at hloop
  have hd : s.curPcb.fileArray fd = s.files fd := rfl
  simp only [readDataOne, hd, hp, hptr, hinode, hloop.out, hloop.filePosition, setFd_cur,
    movedTo]

end Kernel

namespace FsImage

/-- The position after a read of `n` bytes at position `p`. -/
def advance (ino : Inode) (p n : ℕ) : ℕ := p + min n (ino.length - p)

end FsImage

namespace Kernel

variable {img : FsImage} {s : Kernel} {fd k : ℕ}

end Kernel

namespace FsImage

end FsImage
namespace Kernel

variable {img : FsImage} {s : Kernel} {fd : ℕ} {fname : ℕ → UInt8} {d : Dentry}

theorem shellImage_wellFormed : shellImage.WellFormed :=
  ⟨by decide, by decide, fun _ _ => Nat.le_refl _, fun _ _ _ => Nat.lt_succ_self 1,
    fun _ _ => (by decide : 100 ≤ 1023 * blockSize), fun _ _ _ _ => Nat.zero_lt_one⟩

end Kernel
end KudOS
