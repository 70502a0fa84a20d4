import KudOS.Paging

/-!
# The read-only file system

`filesystem.c` and the string functions of `lib.c` it uses. The functions on the
image come first, then those that go through the descriptor table of the current
process. A read returns the bytes it stores to the caller's buffer.
-/

namespace KudOS

/-! ## Strings -/

/-- The loop of `strncmp` from index `i` on, with `n` characters left. -/
def strncmpFrom (s1 s2 : ℕ → UInt8) : ℕ → ℕ → ℤ
  | 0, _ => 0
  | n + 1, i =>
    if s1 i ≠ s2 i ∨ s1 i = 0 then (s1 i).toInt8.toInt - (s2 i).toInt8.toInt
    else strncmpFrom s1 s2 n (i + 1)

def strncmp (s1 s2 : ℕ → UInt8) (n : ℕ) : ℤ := strncmpFrom s1 s2 n 0

/-- `strlen` of a string whose terminator is among the first `n` bytes. -/
def strlenFrom (s : ℕ → UInt8) : ℕ → ℕ → ℕ
  | 0, i => i
  | n + 1, i => if s i = 0 then i else strlenFrom s n (i + 1)

namespace Dentry

/-- The entry as memory: the name field is followed by the bytes of `ftype`. -/
def byte (d : Dentry) (i : ℕ) : UInt8 :=
  if i < maxFnameLength then d.fname i
  else (d.ftype >>> (8 * (i - maxFnameLength))).toUInt8

/-- `strlen(fname)`. A name of 32 bytes has no terminator of its own; the scan then
ends in the bytes of `ftype`. -/
def nameLength (d : Dentry) : ℕ := strlenFrom d.byte (maxFnameLength + 4) 0

end Dentry

/-- `data_blocks[k]` of an inode. The word in front of the array is `length`. -/
def Inode.block (ino : Inode) (k : ℤ) : ℕ := if k = -1 then ino.length else ino.dataBlocks k.toNat

namespace FsImage

/-- Byte `off` of `data_array[n]`; addresses are 32-bit words. -/
def dataByte (img : FsImage) (n off : ℕ) : UInt8 := img.data ((n * blockSize + off) % wordSize)

/-- `read_dentry_by_name`: `none` is the return value -1. The last match wins. -/
def readDentryByName (img : FsImage) (fname : ℕ → UInt8) : Option Dentry :=
  forLoop img.numDirEntries
    (fun i found =>
      if strncmp fname (img.dirEntries i).fname maxFnameLength = 0 then some (img.dirEntries i)
      else found) none

/-- The variables of `read_data` that its three copies share. -/
structure Copy where
  datablockStart : ℤ
  numDataBlocks : ℤ
  bytesRead : ℤ
  bufCurr : ℕ
  buf : ℕ → UInt8

/-- The counting loop of `read_data`, for byte offsets from `offset` below `stop`. -/
def countBlocks (offset stop : ℕ) : ℤ :=
  forLoop (stop - offset)
    (fun i n => if (((offset + i : ℕ) : ℤ) - 1).tmod blockSize = 0 then n + 1 else n) 0

/-- The first copy of `read_data`: the rest of the block the offset lies in. -/
def copyFirst (img : FsImage) (ino : Inode) (offset : ℕ) (c : Copy) : Copy :=
  let bytesLeft := blockSize - offset % blockSize
  if bytesLeft ≠ blockSize then
    let n := ino.block c.datablockStart
    { datablockStart := c.datablockStart + 1
      numDataBlocks := c.numDataBlocks - 1
      bytesRead := c.bytesRead + bytesLeft
      bufCurr := c.bufCurr + bytesLeft
      buf := memcpy c.buf c.bufCurr (fun j => img.dataByte n (offset + j)) bytesLeft }
  else c

/-- The second copy of `read_data`: whole blocks, all but the last. -/
def copyWhole (img : FsImage) (ino : Inode) (c : Copy) : Copy :=
  forLoop (c.numDataBlocks - 1 - c.datablockStart).toNat
    (fun i d =>
      { d with
        bytesRead := d.bytesRead + blockSize
        bufCurr := d.bufCurr + blockSize
        buf := memcpy d.buf d.bufCurr (img.dataByte (ino.block (c.datablockStart + i))) blockSize })
    c

/-- `read_data`, with the buffer after the call. -/
def readData (img : FsImage) (inode offset : ℕ) (buf : ℕ → UInt8) (length : ℕ) :
    ℤ × (ℕ → UInt8) :=
  let ino := img.inodes inode
  let stop := (offset + length) % wordSize
  let datablockStart : ℤ :=
    (offset / blockSize : ℕ) - if offset > 0 ∧ offset % blockSize = 0 then 1 else 0
  if stop > ino.length then (-1, buf)
  else
    let c : Copy := ⟨datablockStart, countBlocks offset stop, 0, 0, buf⟩
    let c := img.copyFirst ino offset c
    let c := img.copyWhole ino c
    let bytesLeft := stop % blockSize
    let n := ino.block (c.datablockStart + c.numDataBlocks - 1)
    (c.bytesRead + blockSize, memcpy c.buf c.bufCurr (img.dataByte n) bytesLeft)

end FsImage

/-! ## Descriptors of the current process -/

/-- The loop variables of `read_data_one` and the bytes stored so far. -/
structure ReadCursor where
  offset : ℕ
  datablockNumber : ℕ
  curOffset : ℕ
  filePosition : ℕ
  out : List UInt8

/-- One iteration of the loop of `read_data_one`. At a block boundary the block
number is stepped, not looked up. -/
def ReadCursor.next (img : FsImage) (c : ReadCursor) : ReadCursor :=
  let c' : ReadCursor :=
    { c with
      offset := c.offset + 1
      curOffset := c.curOffset + 1
      filePosition := c.filePosition + 1
      out := c.out ++ [img.dataByte c.datablockNumber c.curOffset] }
  if c'.curOffset % blockSize = 0 then
    { c' with curOffset := 0, datablockNumber := inc32 c'.datablockNumber }
  else c'

/-- The loop of `read_data_one`, with `n` bytes left to deliver. -/
def ReadCursor.loop (img : FsImage) (fSize : ℕ) : ℕ → ReadCursor → ReadCursor
  | 0, c => c
  | n + 1, c => if c.offset < fSize then ReadCursor.loop img fSize n (c.next img) else c

namespace Kernel

def readDataOne (img : FsImage) (s : Kernel) (fd nBytes : ℕ) : List UInt8 × Kernel :=
  let d := s.curPcb.fileArray fd
  let offset := d.filePosition
  let inode := dec32 ((d.inodePtr + (wordSize - img.fsStart)) % wordSize / blockSize)
  let ino := img.inodes inode
  let c : ReadCursor :=
    ⟨offset, ino.dataBlocks (offset / blockSize), offset % blockSize, offset, []⟩
  let c := c.loop img ino.length nBytes
  (c.out, s.setFd s.cur fd { d with filePosition := c.filePosition })

/-- `read_dir`. The byte count asked for is not used. -/
def readDir (img : FsImage) (s : Kernel) (fd : ℕ) : List UInt8 × Kernel :=
  let d := s.curPcb.fileArray fd
  if d.filePosition < img.numDirEntries then
    let e := img.dirEntries d.filePosition
    ((List.range e.nameLength).map e.byte,
      s.setFd s.cur fd { d with filePosition := d.filePosition + 1 })
  else ([], s)

def readFile (img : FsImage) (s : Kernel) (fd : ℕ) (nbytes : ℤ) : List UInt8 × Kernel :=
  if (s.curPcb.fileArray fd).inodePtr = 0 then s.readDir img fd
  else s.readDataOne img fd (nbytes % wordSize).toNat

/-- `find_free_fd` of `pcb.c`. -/
def findFreeFd (p : Pcb) : Option ℕ :=
  (List.range' fdMinIdx (fdMaxIdx + 1 - fdMinIdx)).find? fun i => (p.fileArray i).fileOps.isNone

/-- `remove_fd` of `pcb.c`. -/
def removeFd (s : Kernel) (i fd : ℕ) : Kernel :=
  if fd < fdMinIdx ∨ fd > fdMaxIdx then s
  else s.setFd i fd { (s.pcbs i).fileArray fd with fileOps := none }

/-- `open_file`: the descriptor, or -1. The entry found is left in the global
`dentry`. -/
def openFile (img : FsImage) (s : Kernel) (fname : ℕ → UInt8) : ℤ × Kernel :=
  match img.readDentryByName fname with
  | none => (-1, s)
  | some d =>
    let s := { s with dentry := d }
    match findFreeFd s.curPcb with
    | none => (-1, s)
    | some fd =>
      if d.ftype = fileTypeRtc then (fd, s.setFd s.cur fd ⟨some .rtcOps, 0, 0, fileInUse⟩)
      else if d.ftype = fileTypeDir then
        (fd, s.setFd s.cur fd ⟨some .fileOps, 0, 0, fileInUse⟩)
      else if d.ftype = fileTypeReg then
        (fd, s.setFd s.cur fd
          ⟨some .fileOps, (img.fsStart + (d.inode + 1) * blockSize) % wordSize, 0, fileInUse⟩)
      else (fd, s)

def closeFile (s : Kernel) (fd : ℕ) : Kernel := s.setFd s.cur fd ⟨none, 0, 0, fileNotInUse⟩

/-- `copy_file_image`: the whole file is read into a buffer on the stack and copied to
`IMAGE_START`. -/
def copyFileImage (img : FsImage) (buf : ℕ → UInt8) (s : Kernel) (fname : ℕ → UInt8) :
    Except Stop Kernel :=
  match img.readDentryByName fname with
  | none => .error .fault
  | some d =>
    let fsize := (img.inodes d.inode).length
    s.storeUser imageStart (img.readData d.inode 0 buf fsize).2 fsize

end Kernel
end KudOS
