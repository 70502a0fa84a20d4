import KudOS.CountedLoop
import KudOS.KernelState

/-!
# Page directories

`paging.c` and `loadPageDirectory`. Directory and table entries are 32-bit words;
the directory of process `p` is `page_directories[p - 1]`.
-/

namespace KudOS

/-- Attributes of directory and table entries, as in `paging.h`. -/
@[simp] def attribute0 : ℕ := 0x6
@[simp] def attribute1 : ℕ := 0x7
@[simp] def kernelPage : ℕ := 0x00400183
@[simp] def userPage8MB : ℕ := 0x00800087
@[simp] def fourMB : ℕ := 0x400000
@[simp] def vidmapOffset : ℕ := 0x21
@[simp] def programOffset : ℕ := 0x20
@[simp] def videoOffset : ℕ := 0
@[simp] def kernelOffset : ℕ := 1
@[simp] def vidmapAddr : ℕ := 0x084B8000
@[simp] def videoPage : ℕ := 0xB8000
@[simp] def entries : ℕ := 1024

namespace Paging

/-- `loadPageDirectory(&page_directories[i])`. -/
def loadPageDirectory (p : Paging) (i : ℕ) : Except Stop Paging :=
  if i < maxTasks then .ok { p with cr3 := i } else .error .fault

/-- Store to one directory, and to one entry of it. -/
def setDirectory (p : Paging) (d : ℕ) (f : ℕ → ℕ) : Paging :=
  { p with pageDirectories := Function.update p.pageDirectories d f }

def setEntry (p : Paging) (d k e : ℕ) : Paging :=
  p.setDirectory d (Function.update (p.pageDirectories d) k e)

/-- The loop that clears all entries of a directory. -/
def clearDirectory (p : Paging) (d : ℕ) : Paging :=
  forLoop entries (fun i p => p.setEntry d i attribute0) p

/-- `paging_init`. Both branches of its table loop store the same word. -/
def pagingInit (m : Machine) (p : Paging) : Except Stop Paging :=
  let p := p.clearDirectory 0
  let table := forLoop entries
    (fun j t => Function.update t j ((j * pageSize4KB) ||| attribute1)) p.pageTable
  let p := { p with pageTable := table }
  let p := p.setEntry 0 videoOffset (m.pageTableAddr ||| attribute1)
  let p := p.setEntry 0 kernelOffset kernelPage
  p.loadPageDirectory 0

/-- `new_task_pd`. The guard admits one directory too many, which faults. -/
def newTaskPd (m : Machine) (p : Paging) (programId : ℕ) : Except Stop Paging :=
  if programId > maxTasks then .ok p
  else if programId < maxTasks then
    let p := p.clearDirectory programId
    let p := p.setEntry programId videoOffset (m.pageTableAddr ||| attribute1)
    let p := p.setEntry programId kernelOffset kernelPage
    let p := p.setEntry programId programOffset (userPage8MB + programId * fourMB)
    p.loadPageDirectory programId
  else .error .fault

/-- `create_vidmap` for the process whose directory is number `d`. -/
def createVidmap (m : Machine) (p : Paging) (d : ℕ) : Except Stop Paging :=
  let table := forLoop entries
    (fun j t => Function.update t j
      (if j * pageSize4KB = videoPage then videoPage ||| attribute1
        else videoPage ||| attribute0)) p.pageTableVidmap
  let p := { p with pageTableVidmap := table }
  if d < maxTasks then
    .ok (p.setEntry d vidmapOffset (m.pageTableVidmapAddr ||| attribute1))
  else .error .fault

/-- The directory `new_task_pd` builds for directory number `d`. -/
def taskDirectory (m : Machine) (d k : ℕ) : ℕ :=
  if k = programOffset then userPage8MB + d * fourMB
  else if k = kernelOffset then kernelPage
  else if k = videoOffset then m.pageTableAddr ||| attribute1
  else attribute0

@[simp] theorem setDirectory_self (p : Paging) (d : ℕ) (f : ℕ → ℕ) :
    (p.setDirectory d f).pageDirectories d = f := Function.update_self ..

@[simp] theorem setDirectory_of_ne (p : Paging) {d e : ℕ} (f : ℕ → ℕ) (h : e ≠ d) :
    (p.setDirectory d f).pageDirectories e = p.pageDirectories e := Function.update_of_ne h ..

@[simp] theorem setDirectory_setDirectory (p : Paging) (d : ℕ) (f g : ℕ → ℕ) :
    (p.setDirectory d f).setDirectory d g = p.setDirectory d g := by
  simp [setDirectory]

theorem clearDirectory_eq (p : Paging) (d : ℕ) :
    p.clearDirectory d =
      p.setDirectory d fun k => if k < entries then attribute0 else p.pageDirectories d k := by
  have hloop : ∀ n, forLoop n (fun i p => p.setEntry d i attribute0) p =
      p.setDirectory d fun k => if k < n then attribute0 else p.pageDirectories d k := by
    intro n
    induction n with
    | zero => simp [setDirectory]
    | succ n ih =>
      rw [forLoop_succ, ih, setEntry, setDirectory_self, setDirectory_setDirectory]
      congr 1
      funext k
      by_cases hk : k = n
      · simp [hk]
      · have hiff : k < n + 1 ↔ k < n := by omega
        simp only [Function.update_of_ne hk, hiff]
  exact hloop entries

theorem newTaskPd_eq (m : Machine) (p : Paging) {d : ℕ} (hd : d < maxTasks) :
    p.newTaskPd m d = .ok { p.setDirectory d (fun k =>
      if k < entries then taskDirectory m d k else p.pageDirectories d k) with cr3 := d } := by
  have hdir : Function.update (Function.update (Function.update
      (fun k => if k < entries then attribute0 else p.pageDirectories d k)
      videoOffset (m.pageTableAddr ||| attribute1)) kernelOffset kernelPage)
      programOffset (userPage8MB + d * fourMB) =
      fun k => if k < entries then taskDirectory m d k else p.pageDirectories d k := by
    funext k
    by_cases h1 : k = programOffset
    · subst h1
      simp [taskDirectory]
    by_cases h2 : k = kernelOffset
    · subst h2
      simp [taskDirectory]
    by_cases h3 : k = videoOffset
    · subst h3
      simp [taskDirectory]
    · rw [Function.update_of_ne h1, Function.update_of_ne h2, Function.update_of_ne h3]
      simp only [taskDirectory, h1, h2, h3, if_false]
  have hd' : ¬ d > maxTasks := by omega
  simp only [newTaskPd, hd, hd', if_true, if_false, loadPageDirectory, clearDirectory_eq, setEntry,
    setDirectory_self, setDirectory_setDirectory, hdir]

/-- The table that `create_vidmap` fills: one present page, which is the video page. -/
def vidmapTable (k : ℕ) : ℕ :=
  if k * pageSize4KB = videoPage then videoPage ||| attribute1 else videoPage ||| attribute0

theorem createVidmap_eq (m : Machine) (p : Paging) {d : ℕ} (hd : d < maxTasks) :
    p.createVidmap m d = .ok (setEntry
      { p with pageTableVidmap := (fun k => if k < entries then vidmapTable k
        else p.pageTableVidmap k) }
      d vidmapOffset (m.pageTableVidmapAddr ||| attribute1)) := by
  have hstore := forLoop_store entries 0 vidmapTable p.pageTableVidmap
  simp only [Nat.zero_add, Nat.zero_le, true_and, Nat.sub_zero] at hstore
  rw [createVidmap, if_pos hd]
  simp only [vidmapTable] at hstore ⊢
  rw [hstore]

/-- The user page as the kernel reaches it: base of the frame that the loaded
directory maps at `0x8000000`, if the entry is a present 4 MB page. -/
def userFrame (p : Paging) : Option ℕ :=
  let e := p.pageDirectories p.cr3 programOffset
  if e % 2 = 1 ∧ e / 128 % 2 = 1 then some (e / fourMB * fourMB) else none

end Paging

/-- `memcpy(dst + at, src, n)`. -/
def memcpy (dst : ℕ → UInt8) (at_ : ℕ) (src : ℕ → UInt8) (n : ℕ) : ℕ → UInt8 :=
  fun i => if at_ ≤ i ∧ i < at_ + n then src (i - at_) else dst i

/-- The kernel stores `n` bytes at the user address `v`. The pages behind the user
page are not present at such a store, so running over its end is a page fault. -/
def Kernel.storeUser (s : Kernel) (v : ℕ) (src : ℕ → UInt8) (n : ℕ) : Except Stop Kernel :=
  match s.paging.userFrame with
  | none => .error .fault
  | some base =>
    if pageVirtAddr ≤ v ∧ v + n ≤ pageVirtAddr + pageSize4MB then
      .ok { s with phys := memcpy s.phys (base + (v - pageVirtAddr)) src n }
    else .error .fault

/-- The byte a process sees at the user address `v` through the loaded directory. -/
def Kernel.userByte (s : Kernel) (v : ℕ) : Option UInt8 :=
  s.paging.userFrame.map fun base => s.phys (base + (v - pageVirtAddr))

end KudOS
