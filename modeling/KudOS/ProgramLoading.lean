import KudOS.FileReading

/-!
# Loading programs

`copy_file_image` reads the whole file with `read_data` and copies it to `IMAGE_START`.
The number of blocks is counted by a loop that misses the last one when the length is a
multiple of the block size or one more, so what is copied then is partly whatever the
stack held before. The value `read_data` returns is that of whole blocks.
-/

namespace KudOS

namespace FsImage

variable {img : FsImage} {ino : Inode}

/-- The blocks `read_data` counts in a file of `n` bytes read from its start. -/
theorem countBlocks_zero (n : ℕ) : countBlocks 0 n = ((n + 4094) / 4096 : ℕ) := by
  induction n with
  | zero => rfl
  | succ n ih =>
    have hsucc : countBlocks 0 (n + 1) =
        if (((0 + n : ℕ) : ℤ) - 1).tmod blockSize = 0 then countBlocks 0 n + 1
        else countBlocks 0 n := rfl
    have hmod : (((0 + n : ℕ) : ℤ) - 1).tmod blockSize = 0 ↔ n % 4096 = 1 := by
      rw [blockSize, Nat.zero_add, ← Int.dvd_iff_tmod_eq_zero]
      omega
    rw [hsucc, ih]
    by_cases hn : n % 4096 = 1
    · rw [if_pos (hmod.mpr hn)]
      omega
    · rw [if_neg (mt hmod.mp hn)]
      omega

theorem block_natCast (ino : Inode) (n : ℕ) : ino.block (n : ℤ) = ino.dataBlocks n := by
  rw [Inode.block, if_neg (by omega), Int.toNat_natCast]

theorem contentByte_eq (img : FsImage) (ino : Inode) {n i : ℕ} (hlo : 4096 * n ≤ i)
    (hhi : i < 4096 * n + 4096) :
    img.contentByte ino i = img.dataByte (ino.dataBlocks n) (i - 4096 * n) := by
  have hdiv : i / 4096 = n := by omega
  have hmod : i % 4096 = i - 4096 * n := by omega
  rw [contentByte, blockSize, hdiv, hmod]

/-- Copying block `n` behind the blocks before it. -/
theorem memcpy_block {buf dst : ℕ → UInt8} (n : ℕ)
    (h : ∀ i, dst i = if i < 4096 * n then img.contentByte ino i else buf i) (i : ℕ) :
    memcpy dst (4096 * n) (img.dataByte (ino.dataBlocks n)) 4096 i =
      if i < 4096 * (n + 1) then img.contentByte ino i else buf i := by
  rw [memcpy]
  by_cases hin : 4096 * n ≤ i ∧ i < 4096 * n + 4096
  · rw [if_pos hin, if_pos (by omega), contentByte_eq img ino hin.1 hin.2]
  · rw [if_neg hin, h]
    by_cases hlo : i < 4096 * n
    · rw [if_pos hlo, if_pos (by omega)]
    · rw [if_neg hlo, if_neg (by omega)]

/-- The copy loop after `n` whole blocks from the start of the file. -/
structure Copy.Whole (img : FsImage) (ino : Inode) (c : Copy) (n : ℕ) (d : Copy) : Prop where
  datablockStart : d.datablockStart = c.datablockStart
  numDataBlocks : d.numDataBlocks = c.numDataBlocks
  bufCurr : d.bufCurr = 4096 * n
  buf : ∀ i, d.buf i = if i < 4096 * n then img.contentByte ino i else c.buf i

theorem copyWhole_spec (c : Copy) (hstart : c.datablockStart = 0) (hbuf : c.bufCurr = 0) :
    Copy.Whole img ino c (c.numDataBlocks - 1).toNat (img.copyWhole ino c) := by
  rw [copyWhole, hstart, Int.sub_zero]
  refine forLoop_induct (Copy.Whole img ino c) _ ?_ ?_
  · exact ⟨rfl, rfl, hbuf, fun i => by rw [if_neg (by omega)]⟩
  · intro n _ d h
    have hblock : ino.block (0 + n) = ino.dataBlocks n := by rw [Int.zero_add, block_natCast]
    refine ⟨h.datablockStart, h.numDataBlocks, ?_, fun i => ?_⟩
    · simp only [h.bufCurr, blockSize]
      omega
    · simp only [h.bufCurr, hblock, blockSize]
      exact memcpy_block n h.buf i

/-- The bytes that are copied from whole blocks. -/
def wholeBytes (len : ℕ) : ℕ := 4096 * ((len + 4094) / 4096 - 1)

/-- What `read_data` makes of the buffer when it reads a whole file. -/
theorem readData_whole (img : FsImage) (inode : ℕ) (buf : ℕ → UInt8)
    (hlen : (img.inodes inode).length < 2 ^ 32) (i : ℕ) :
    (img.readData inode 0 buf (img.inodes inode).length).2 i =
      if wholeBytes (img.inodes inode).length ≤ i ∧
          i < wholeBytes (img.inodes inode).length + (img.inodes inode).length % 4096 then
        img.dataByte ((img.inodes inode).block
            ((((img.inodes inode).length + 4094) / 4096 : ℕ) - 1 : ℤ))
          (i - wholeBytes (img.inodes inode).length)
      else if i < wholeBytes (img.inodes inode).length then
        img.contentByte (img.inodes inode) i
      else buf i := by
  let ino := img.inodes inode
  let c : Copy := ⟨0, countBlocks 0 ino.length, 0, 0, buf⟩
  have hwhole : Copy.Whole img ino c ((ino.length + 4094) / 4096 - 1) (img.copyWhole ino c) := by
    have h : Copy.Whole img ino c _ (img.copyWhole ino c) := copyWhole_spec c rfl rfl
    have hcount : (c.numDataBlocks - 1).toNat = (ino.length + 4094) / 4096 - 1 := by
      change (countBlocks 0 ino.length - 1).toNat = _
      rw [countBlocks_zero]
      omega
    rwa [hcount] at h
  have hstop : (0 + ino.length) % wordSize = ino.length := by
    rw [Nat.zero_add]
    exact Nat.mod_eq_of_lt hlen
  have hread : (img.readData inode 0 buf ino.length).2 =
      memcpy (img.copyWhole ino c).buf (img.copyWhole ino c).bufCurr
        (img.dataByte (ino.block ((img.copyWhole ino c).datablockStart +
          (img.copyWhole ino c).numDataBlocks - 1))) (ino.length % 4096) := by
    simp only [readData, hstop]
    rw [if_neg (Nat.lt_irrefl _)]
    rfl
  have hnum : (img.copyWhole ino c).datablockStart + (img.copyWhole ino c).numDataBlocks - 1 =
      (((ino.length + 4094) / 4096 : ℕ) - 1 : ℤ) := by
    rw [hwhole.datablockStart, hwhole.numDataBlocks]
    change 0 + countBlocks 0 ino.length - 1 = _
    rw [countBlocks_zero, Int.zero_add]
  change (img.readData inode 0 buf ino.length).2 i = _
  rw [hread, hnum, hwhole.bufCurr, memcpy, hwhole.buf]
  rfl

/-- All blocks are counted when the last one holds at least two bytes. -/
theorem readData_of_two_le (img : FsImage) (inode : ℕ) (buf : ℕ → UInt8)
    (hlen : (img.inodes inode).length < 2 ^ 32) (h2 : 2 ≤ (img.inodes inode).length % 4096)
    {i : ℕ} (hi : i < (img.inodes inode).length) :
    (img.readData inode 0 buf (img.inodes inode).length).2 i =
      img.contentByte (img.inodes inode) i := by
  have hcount : ((img.inodes inode).length + 4094) / 4096 = (img.inodes inode).length / 4096 + 1 := by
    omega
  have hwhole : wholeBytes (img.inodes inode).length = 4096 * ((img.inodes inode).length / 4096) := by
    rw [wholeBytes, hcount, Nat.add_sub_cancel]
  have hblock : (img.inodes inode).block
      ((((img.inodes inode).length + 4094) / 4096 : ℕ) - 1 : ℤ) =
      (img.inodes inode).dataBlocks ((img.inodes inode).length / 4096) := by
    have hcast : (((img.inodes inode).length / 4096 + 1 : ℕ) - 1 : ℤ) =
        ((img.inodes inode).length / 4096 : ℕ) := by omega
    rw [hcount, hcast, block_natCast]
  rw [readData_whole img inode buf hlen, hwhole, hblock]
  by_cases hlast : 4096 * ((img.inodes inode).length / 4096) ≤ i
  · rw [if_pos ⟨hlast, by omega⟩, contentByte_eq img _ hlast (by omega)]
  · rw [if_neg (by omega), if_pos (by omega)]

/-- A byte behind the counted blocks keeps what the stack held. -/
theorem readData_stray (img : FsImage) (inode : ℕ) (buf : ℕ → UInt8)
    (hlen : (img.inodes inode).length < 2 ^ 32) (h1 : 1 < (img.inodes inode).length)
    (h2 : (img.inodes inode).length % 4096 < 2) :
    ∃ i < (img.inodes inode).length,
      (img.readData inode 0 buf (img.inodes inode).length).2 i = buf i := by
  refine ⟨wholeBytes (img.inodes inode).length + (img.inodes inode).length % 4096, ?_, ?_⟩
  · rw [wholeBytes]
    omega
  · rw [readData_whole img inode buf hlen, if_neg (by omega), if_neg (by omega)]

/-- A file of one byte: the block number is taken from the word in front of the list of
blocks, which is the length. -/
theorem readData_one (img : FsImage) (inode : ℕ) (buf : ℕ → UInt8)
    (h1 : (img.inodes inode).length = 1) :
    (img.readData inode 0 buf (img.inodes inode).length).2 0 = img.dataByte 1 0 := by
  rw [readData_whole img inode buf (by omega), h1]
  have hblock : (img.inodes inode).block (((1 + 4094) / 4096 : ℕ) - 1 : ℤ) = 1 := by
    change (img.inodes inode).block (-1) = 1
    rw [Inode.block, if_pos rfl, h1]
  rw [hblock]
  rfl

/-- Whatever the stack held, `read_data` of the whole file delivers its content. -/
theorem readData_content_iff (img : FsImage) (inode : ℕ)
    (hlen : (img.inodes inode).length < 2 ^ 32) :
    (∀ buf, ∀ i < (img.inodes inode).length,
      (img.readData inode 0 buf (img.inodes inode).length).2 i =
        img.contentByte (img.inodes inode) i) ↔
    (img.inodes inode).length = 0 ∨ 2 ≤ (img.inodes inode).length % 4096 ∨
      (img.inodes inode).length = 1 ∧
        img.dataByte 1 0 = img.dataByte ((img.inodes inode).dataBlocks 0) 0 := by
  constructor
  · intro h
    rcases Nat.lt_trichotomy (img.inodes inode).length 1 with h0 | h1 | h1
    · exact Or.inl (by omega)
    · refine Or.inr (Or.inr ⟨h1, ?_⟩)
      rw [← readData_one img inode (fun _ => 0) h1]
      exact h _ 0 (by omega)
    · refine Or.inr (Or.inl ?_)
      by_contra h2
      obtain ⟨i, hi, hstray⟩ := readData_stray img inode
        (fun i => img.contentByte (img.inodes inode) i + 1) hlen h1 (by omega)
      rw [h _ i hi] at hstray
      simp at hstray
  · rintro (h0 | h2 | ⟨h1, hbyte⟩) buf i hi
    · omega
    · exact readData_of_two_le img inode buf hlen h2 hi
    · obtain rfl : i = 0 := by omega
      rw [readData_one img inode buf h1, hbyte]
      rfl

/-! ## The contract of `read_data` -/

/-- While `read_data` copies, it counts the bytes by which the pointer moved, and has not
written behind the pointer. -/
structure Copy.Filled (buf : ℕ → UInt8) (c : Copy) : Prop where
  bytesRead : c.bytesRead = c.bufCurr
  behind : ∀ i, c.bufCurr ≤ i → c.buf i = buf i

theorem memcpy_behind {dst buf src : ℕ → UInt8} {p : ℕ} (h : ∀ i, p ≤ i → dst i = buf i)
    {n i : ℕ} (hi : p + n ≤ i) : memcpy dst p src n i = buf i := by
  rw [memcpy, if_neg (by omega)]
  exact h i (by omega)

theorem Copy.Filled.first {buf : ℕ → UInt8} {c : Copy} (h : c.Filled buf) (img : FsImage)
    (ino : Inode) (offset : ℕ) : (img.copyFirst ino offset c).Filled buf := by
  unfold copyFirst
  dsimp only
  split
  · refine ⟨?_, fun i hi => ?_⟩
    · simp only [h.bytesRead]
      omega
    · dsimp only at hi ⊢
      exact memcpy_behind h.behind hi
  · exact h

end FsImage
namespace Kernel

variable {img : FsImage} {s : Kernel} {fname : ℕ → UInt8} {d : Dentry} {base : ℕ}

/-- Whatever the stack held, the program file is copied to `IMAGE_START` byte for byte,
and no other memory changes. -/
def LoadsProgram (img : FsImage) (s : Kernel) (fname : ℕ → UInt8) : Prop :=
  ∀ d base, img.readDentryByName fname = some d → s.paging.userFrame = some base →
    ∀ buf, ∃ s', s.copyFileImage img buf fname = .ok s' ∧
      (∀ i < (img.inodes d.inode).length,
        s'.userByte (imageStart + i) = some (img.contentByte (img.inodes d.inode) i)) ∧
      ∀ a, ¬ (base + (imageStart - pageVirtAddr) ≤ a ∧
        a < base + (imageStart - pageVirtAddr) + (img.inodes d.inode).length) →
        s'.phys a = s.phys a

/-- The state after the image was copied. -/
theorem copyFileImage_eq (hd : img.readDentryByName fname = some d)
    (hframe : s.paging.userFrame = some base)
    (hfits : (img.inodes d.inode).length ≤ 0x400000 - 0x48000) (buf : ℕ → UInt8) :
    s.copyFileImage img buf fname = .ok { s with
      phys := memcpy s.phys (base + (imageStart - pageVirtAddr))
        (img.readData d.inode 0 buf (img.inodes d.inode).length).2 (img.inodes d.inode).length } := by
  have hbounds : pageVirtAddr ≤ imageStart ∧
      imageStart + (img.inodes d.inode).length ≤ pageVirtAddr + pageSize4MB := by
    rw [pageVirtAddr, imageStart, pageSize4MB]
    omega
  simp only [copyFileImage, hd, storeUser, hframe]
  rw [if_pos hbounds]

theorem userByte_copied (hframe : s.paging.userFrame = some base) (src : ℕ → UInt8) {n i : ℕ}
    (hi : i < n) :
    userByte { s with phys := memcpy s.phys (base + (imageStart - pageVirtAddr)) src n }
      (imageStart + i) = some (src i) := by
  have haddr : base + (imageStart + i - pageVirtAddr) =
      base + (imageStart - pageVirtAddr) + i := by
    rw [imageStart, pageVirtAddr]
    omega
  simp only [userByte, hframe, Option.map_some, memcpy, haddr]
  rw [if_pos (by omega), Nat.add_sub_cancel_left]

/-- The loader is as good as `read_data`. -/
theorem loadsProgram_iff_readData (hd : img.readDentryByName fname = some d)
    (hframe : s.paging.userFrame = some base)
    (hfits : (img.inodes d.inode).length ≤ 0x400000 - 0x48000) :
    LoadsProgram img s fname ↔ ∀ buf, ∀ i < (img.inodes d.inode).length,
      (img.readData d.inode 0 buf (img.inodes d.inode).length).2 i =
        img.contentByte (img.inodes d.inode) i := by
  constructor
  · intro h buf i hi
    obtain ⟨s', hcopy, hbytes, -⟩ := h d base hd hframe buf
    rw [copyFileImage_eq hd hframe hfits] at hcopy
    have hbyte := hbytes i hi
    rw [← Except.ok.inj hcopy, userByte_copied hframe _ hi] at hbyte
    exact Option.some.inj hbyte
  · intro h d' base' hd' hframe' buf
    obtain rfl : d = d' := Option.some.inj (hd.symm.trans hd')
    obtain rfl : base = base' := Option.some.inj (hframe.symm.trans hframe')
    refine ⟨_, copyFileImage_eq hd hframe hfits buf, fun i hi => ?_, fun a ha => if_neg ha⟩
    rw [userByte_copied hframe _ hi, h buf i hi]

/-- For every file that fits the user page: the loader works exactly for empty files, for
lengths whose residue modulo 4096 is at least 2, and for a file of one byte that happens
to be the first byte of data block 1. -/
theorem loadsProgram_iff (hd : img.readDentryByName fname = some d)
    (hframe : s.paging.userFrame = some base)
    (hfits : (img.inodes d.inode).length ≤ 0x400000 - 0x48000) :
    LoadsProgram img s fname ↔
      (img.inodes d.inode).length = 0 ∨ 2 ≤ (img.inodes d.inode).length % 4096 ∨
        (img.inodes d.inode).length = 1 ∧
          img.dataByte 1 0 = img.dataByte ((img.inodes d.inode).dataBlocks 0) 0 := by
  rw [loadsProgram_iff_readData hd hframe hfits]
  exact img.readData_content_iff d.inode (by omega)

/-- The smallest machine with the directory of process 1 loaded. -/
def loaderKernel : Kernel :=
  { bootKernel with
    paging := { bootKernel.paging with
      pageDirectories := fun _ => Paging.taskDirectory shellMachine 0 } }

theorem loaderKernel_frame : loaderKernel.paging.userFrame = some 0x800000 := rfl

/-- The shell of 100 bytes is loaded. -/
theorem shell_loaded : LoadsProgram shellImage loaderKernel (cString shellCommand) :=
  (loadsProgram_iff readDentryByName_shellImage loaderKernel_frame (by decide)).mpr
    (Or.inr (Or.inl (by decide)))

/-- The same file with a length of exactly one block, all of whose bytes are 1. -/
def blockImage : FsImage :=
  { shellImage with
    inodes := fun _ => ⟨4096, fun _ => 0⟩
    data := fun _ => 1 }

/-- Of a file of 4096 bytes nothing is loaded. -/
theorem block_not_loaded : blockImage.WellFormed ∧
    ¬ LoadsProgram blockImage loaderKernel (cString shellCommand) := by
  have himg : blockImage.WellFormed :=
    ⟨by decide, by decide, fun _ _ => Nat.le_refl _, fun _ _ _ => Nat.lt_succ_self 1,
      fun _ _ => (by decide : 4096 ≤ 1023 * blockSize), fun _ _ _ _ => Nat.zero_lt_one⟩
  refine ⟨himg, fun h => ?_⟩
  have hd : blockImage.readDentryByName (cString shellCommand) = _ := readDentryByName_shellImage
  rw [loadsProgram_iff_readData hd loaderKernel_frame (by decide)] at h
  have hbyte := h (fun _ => 0) 0 (by decide)
  rw [FsImage.readData_whole blockImage 1 (fun _ => 0) (by decide)] at hbyte
  exact absurd hbyte (by decide)

end Kernel
end KudOS
