import KudOS.KernelRuns

/-!
# Starting the shell

`entry`, `halt` and `switch_terminal` start the shell by name. With an image that has a
shell this succeeds whenever a slot is free, whatever an earlier process left in the
slot and on the stack.
-/

namespace KudOS

/-! ## Names behind their terminator -/

theorem strncmpFrom_congr {s1 s1' s2 : ℕ → UInt8} {k : ℕ} (hk : s1 k = 0)
    (heq : ∀ i ≤ k, s1' i = s1 i) (n i : ℕ) (hi : i ≤ k) :
    strncmpFrom s1' s2 n i = strncmpFrom s1 s2 n i := by
  induction n generalizing i with
  | zero => rfl
  | succ n ih =>
    rw [strncmpFrom, strncmpFrom, heq i hi]
    by_cases hstop : s1 i ≠ s2 i ∨ s1 i = 0
    · rw [if_pos hstop, if_pos hstop]
    · rw [if_neg hstop, if_neg hstop]
      have hik : i ≠ k := fun hik => hstop (Or.inr (hik ▸ hk))
      exact ih (i + 1) (by omega)

/-- The lookup reads the name up to its terminator only. -/
theorem FsImage.readDentryByName_congr (img : FsImage) {name name' : ℕ → UInt8} {k : ℕ}
    (hk : name k = 0) (heq : ∀ i ≤ k, name' i = name i) :
    img.readDentryByName name' = img.readDentryByName name := by
  unfold readDentryByName
  congr 1
  funext i found
  rw [strncmp, strncmp, strncmpFrom_congr hk heq maxFnameLength 0 (Nat.zero_le k)]

theorem checkExecutable_congr (img : FsImage) (header : ℕ → UInt8) {name name' : ℕ → UInt8}
    {k : ℕ} (hk : name k = 0) (heq : ∀ i ≤ k, name' i = name i) :
    checkExecutable img header name' = checkExecutable img header name := by
  rw [checkExecutable, checkExecutable, img.readDentryByName_congr hk heq]

theorem storeString_eq (a : ℕ → UInt8) (l : List UInt8) {i : ℕ} (hi : i ≤ l.length) :
    storeString a l i = cString l i := by
  rw [storeString, memcpy, if_pos (by omega), Nat.sub_zero]

theorem cString_length (l : List UInt8) : cString l l.length = 0 := by
  simp [cString]

/-! ## Images with a shell -/

/-- The image has an executable called `shell` that fits the user page. -/
structure FsImage.HasShell (img : FsImage) : Prop where
  accepted : ∃ entry, ∀ header, checkExecutable img header (cString shellCommand) = some entry
  fits : ∀ d, img.readDentryByName (cString shellCommand) = some d →
    imageStart + (img.inodes d.inode).length ≤ pageVirtAddr + pageSize4MB

theorem checkExecutable_found {img : FsImage} {header name : ℕ → UInt8} {entry : ℕ}
    (h : checkExecutable img header name = some entry) :
    ∃ d, img.readDentryByName name = some d := by
  unfold checkExecutable at h
  split at h
  · cases h
  · exact ⟨_, ‹_›⟩

namespace Kernel

variable {m : Machine} {s : Kernel} {σ : TerminalId → List ℕ}

theorem checkCommand_shell : checkCommand (some shellCommand) = some (shellCommand, []) := by
  decide +kernel

theorem userFrame_taskDirectory (p : Paging) (d : ℕ) :
    Paging.userFrame { p.setDirectory d (fun k => if k < entries then
      Paging.taskDirectory m d k else p.pageDirectories d k) with cr3 := d } =
      some ((userPage8MB + d * fourMB) / fourMB * fourMB) := by
  have hentry : (userPage8MB + d * fourMB) % 2 = 1 ∧ (userPage8MB + d * fourMB) / 128 % 2 = 1 := by
    rw [userPage8MB, fourMB]
    omega
  have hdir : (if programOffset < entries then Paging.taskDirectory m d programOffset
      else p.pageDirectories d programOffset) = userPage8MB + d * fourMB := by
    rw [if_pos (by decide), Paging.taskDirectory, if_pos rfl]
  simp only [Paging.userFrame, Paging.setDirectory_self, hdir]
  rw [if_pos hentry]

theorem copyFileImage_ok {img : FsImage} {name : ℕ → UInt8} {d : Dentry} {base : ℕ}
    (hd : img.readDentryByName name = some d) (hframe : s.paging.userFrame = some base)
    (hfits : imageStart + (img.inodes d.inode).length ≤ pageVirtAddr + pageSize4MB)
    (buf : ℕ → UInt8) : ∃ s', s.copyFileImage img buf name = .ok s' := by
  have hbounds : pageVirtAddr ≤ imageStart ∧
      imageStart + (img.inodes d.inode).length ≤ pageVirtAddr + pageSize4MB :=
    ⟨by decide, hfits⟩
  simp only [copyFileImage, hd, storeUser, hframe]
  rw [if_pos hbounds]
  exact ⟨_, rfl⟩

variable (fr : StackFrame)

/-- A process whose file was found and fits its page is launched. -/
theorem launch_ok {i : ℕ} (entry : ℕ) {name : ℕ → UInt8} (args : ℕ → UInt8) {d : Dentry}
    (h1 : 1 ≤ i) (h6 : i ≤ 6) (hd : m.image.readDentryByName name = some d)
    (hfits : imageStart + (m.image.inodes d.inode).length ≤ pageVirtAddr + pageSize4MB) :
    ∃ s', launch m fr { s.pushed i with
      pcbs := Function.update s.pcbs i (s.commandPcb i name args) } i entry =
        .ok (.started entry, s') := by
  have hlt : i - 1 < maxTasks := by rw [maxTasks]; omega
  have hcur : curPcb { s.pushed i with
      pcbs := Function.update s.pcbs i (s.commandPcb i name args) } =
      s.commandPcb i name args := by
    simp [curPcb, cur, pushed]
  have hid : (s.commandPcb i name args).programId = i := rfl
  have hpd := Paging.newTaskPd_eq m s.paging hlt
  have hcopy := copyFileImage_ok
    (s := { s.pushed i with
      pcbs := Function.update s.pcbs i (s.commandPcb i name args)
      paging := { s.paging.setDirectory (i - 1) (fun k => if k < entries then
        Paging.taskDirectory m (i - 1) k else s.paging.pageDirectories (i - 1) k) with
        cr3 := i - 1 } }) hd (userFrame_taskDirectory s.paging (i - 1)) hfits fr.imageBuf
  obtain ⟨u, hu⟩ := hcopy
  rw [launch, hcur, hid, dec32_of_pos h1 (by omega)]
  refine ⟨_, bind_eq_ok.mpr ⟨_, hpd, bind_eq_ok.mpr ⟨u, ?_, rfl⟩⟩⟩
  rw [← hu]
  simp [curPcb, cur, pushed, commandPcb]

/-- The shell is started whenever the process limit is not reached. -/
theorem execute_shell (himg : m.image.HasShell) (h : s.Ready σ) (hn : s.processNumber < 6) :
    ∃ entry s', s.execute m fr (some shellCommand) = .ok (.started entry, s') := by
  obtain ⟨entry, haccept⟩ := himg.accepted
  obtain ⟨d, hd⟩ := checkExecutable_found (haccept fr.elfHeader)
  obtain ⟨i, h1, h6, hfree, hspawn⟩ := spawn_eq h hn
  have hinc : inc32 s.processNumber = s.processNumber + 1 := inc32_of_lt (by omega)
  have hname : ∀ k ≤ shellCommand.length,
      storeString (s.pcbs i).cmdName shellCommand k = cString shellCommand k :=
    fun k hk => storeString_eq _ _ hk
  have hd' := m.image.readDentryByName_congr (cString_length shellCommand) hname
  have hlen : shellCommand.length < maxCmdLength ∧ ([] : List UInt8).length < maxCmdLength := by
    decide +kernel
  obtain ⟨s', hlaunch⟩ := launch_ok (s := s) fr entry (storeString (s.pcbs i).cmdArgs []) h1 h6
    (hd'.trans hd) (himg.fits d hd)
  refine ⟨entry, s', ?_⟩
  rw [execute, hinc, if_neg (by rw [maxProcesses]; omega), hspawn, ok_bind]
  change loadCommand m fr (s.pushed i) i (some shellCommand) = _
  rw [loadCommand_pushed h.stacked, checkCommand_shell]
  dsimp only
  rw [if_pos hlen, checkExecutable_congr m.image fr.elfHeader (cString_length shellCommand) hname,
    haccept]
  exact hlaunch

/-- A terminal that gave up a process leaves room for a shell. -/
theorem popped_processNumber_lt (h : s.Ready σ) {l : List ℕ}
    (hσ : σ s.tty.currTerminal = s.cur :: l) (fa : ℕ → FsDescriptor) :
    (s.popped fa).processNumber < 6 := by
  have hslot := h.stacked.slot_of_mem s.tty.currTerminal s.cur (by simp [hσ])
  have hmem : s.cur ∈ s.procTable.liveSlots := by
    rw [ProcTable.mem_liveSlots]
    omega
  have hpos : 0 < s.processNumber := by
    have hcount : s.processNumber = s.procTable.liveSlots.card := h.stacked.count
    rw [hcount]
    exact Finset.card_pos.mpr ⟨s.cur, hmem⟩
  have hle : s.processNumber ≤ 6 := h.stacked.processNumber_le
  change dec32 s.processNumber < 6
  rw [dec32_of_pos hpos (by omega)]
  omega

/-- `halt` of a live process ends, in its parent or in a new shell. -/
theorem halt_ok (himg : m.image.HasShell) (h : s.Wf σ) (hlive : s.Live s.cur) (status : UInt8) :
    ∃ r, s.halt m fr status = .ok r := by
  obtain ⟨l, hσ⟩ := h.ready.live_iff.mp hlive
  obtain ⟨fa, hclose, -⟩ := closeAll_eq m (h.files_cur hlive)
  rw [halt_eq h.ready hσ]
  cases l with
  | nil =>
    obtain ⟨entry, s', hx⟩ := execute_shell fr himg (h.ready.popped hσ fa)
      (popped_processNumber_lt h.ready hσ fa)
    refine ⟨(.restarted entry, s'), ?_⟩
    rw [if_pos rfl, hclose, ok_bind, withFiles_cur]
    exact bind_eq_ok.mpr ⟨_, hx, rfl⟩
  | cons j l =>
    rw [if_neg (by simp)]
    exact ⟨_, haltTail_parent h.ready hσ hclose⟩

/-- `switch_terminal` ends, also when it finds the terminal empty and the table full. -/
theorem switchTerminal_ok (himg : m.image.HasShell) (h : s.Wf σ) (t : TerminalId) :
    ∃ s', s.switchTerminal m fr t = .ok s' := by
  by_cases ht : t = s.tty.currTerminal
  · rw [switchTerminal, if_pos ht]
    exact ⟨s, rfl⟩
  cases hσ : σ t with
  | nil =>
    have hready := h.ready.shown t
    have hx : ∃ r, (s.shown t).execute m fr (some shellCommand) = .ok r := by
      by_cases hn : s.processNumber < 6
      · obtain ⟨entry, s', hx⟩ := execute_shell fr himg hready hn
        exact ⟨_, hx⟩
      · have hinc : inc32 (s.shown t).processNumber = s.processNumber + 1 := by
          have hle : s.processNumber ≤ 6 := h.ready.stacked.processNumber_le
          exact inc32_of_lt (n := s.processNumber) (by omega)
        rw [execute, hinc, if_pos (by rw [maxProcesses]; omega)]
        exact ⟨_, rfl⟩
    obtain ⟨r, hx⟩ := hx
    rw [switchTerminal_of_ne ht, h.ready.shown_programId, hσ, List.headD_nil, if_pos rfl]
    exact ⟨r.2, bind_eq_ok.mpr ⟨r, hx, rfl⟩⟩
  | cons j l => exact ⟨_, switchTerminal_live h.ready ht hσ⟩

include fr in
/-- The first shell runs alone and is installed. -/
theorem BootState.reachable {s₀ : Kernel} (himg : m.image.HasShell) (h₀ : BootState m s₀)
    (ok : Kernel → Step → Prop) : ∃ s, Reachable m ok s ∧ s.Installed ∧ s.processNumber = 1 := by
  obtain ⟨entry, s, hx⟩ := execute_shell fr himg h₀.wf.ready (by rw [h₀.processNumber]; decide)
  have hres := execute_cases h₀.wf.ready hx
  refine ⟨s, .boot h₀ hx, hres.installed, ?_⟩
  cases hres with
  | started hn i h1 h6 hfree name args mem =>
    change inc32 s₀.processNumber = 1
    rw [h₀.processNumber]
    rfl

end Kernel

/-! ## The smallest machine that boots -/

/-- The header of an executable whose entry point is `IMAGE_START`. -/
def shellHeader : List UInt8 :=
  [0x7F, 0x45, 0x4C, 0x46] ++ List.replicate 20 0 ++ [0x00, 0x80, 0x04, 0x08] ++
    List.replicate 24 0

/-- An image with one file, a shell of 100 bytes in data block 0. -/
def shellImage : FsImage where
  fsStart := 0x500000
  numDirEntries := 1
  numInodes := 2
  numDataBlocks := 1
  dirEntries _ := ⟨cString shellCommand, fileTypeReg, 1⟩
  inodes _ := ⟨100, fun _ => 0⟩
  data k := shellHeader.getD k 0

def shellMachine : Machine where
  image := shellImage
  pageTableAddr := 0x410000
  pageTableVidmapAddr := 0x411000
  strayTables _ _ := 0
  strayFlags _ := 0
  strayKeys _ := 0
  strayCapKeys _ := 0

def blankTty : Tty where
  video _ := 0
  terminalMemory _ _ := 0
  csrX _ := 0
  csrY _ := 0
  lineY _ := 0
  lineBeginning _ := 0
  terminalBuffer _ := 0
  bufferLen _ := 0
  currTerminal := terminal1
  attrib := 0x0F
  cursorHigh := 0
  cursorLow := 0
  enterFlag := false
  ctrlFlag := false
  capFlag := false
  altFlag := false

def blankFrame : StackFrame := ⟨fun _ => 0, fun _ => 0, 0, 0⟩

/-- The machine when `entry` is about to start the first shell. -/
def bootKernel : Kernel where
  tty := blankTty
  pcbs _ := Pcb.zero
  processNumber := 0
  currentPcb := none
  terminalInfo _ := ⟨0, 0⟩
  paging := match Paging.zero.pagingInit shellMachine with
    | .ok p => p
    | .error _ => Paging.zero
  tssEsp0 := 0x800000
  dentry := ⟨fun _ => 0, 0, 0⟩
  phys _ := 0
  rtc := ⟨false, false, 0⟩

theorem readDentryByName_shellImage : shellImage.readDentryByName (cString shellCommand) =
    some ⟨cString shellCommand, fileTypeReg, 1⟩ := by
  have hname : strncmp (cString shellCommand) (cString shellCommand) maxFnameLength = 0 := by
    decide +kernel
  change (if strncmp (cString shellCommand) (cString shellCommand) maxFnameLength = 0 then
    some _ else none) = _
  rw [if_pos hname]
  rfl

theorem readData_shellImage (header : ℕ → UInt8) {k : ℕ} (hk : k < 52) :
    (shellImage.readData 1 0 header elfHeaderSize).2 k = shellHeader.getD k 0 := by
  have hcount : FsImage.countBlocks 0 52 = 1 := by decide +kernel
  have hmod : k % 4294967296 = k := Nat.mod_eq_of_lt (by omega)
  simp [FsImage.readData, FsImage.copyFirst, FsImage.copyWhole, FsImage.dataByte, Inode.block,
    shellImage, memcpy, hcount, hk, hmod]

theorem shellImage_hasShell : shellImage.HasShell where
  accepted := by
    refine ⟨0x08048000, fun header => ?_⟩
    have hbyte := fun k hk => readData_shellImage header (k := k) hk
    rw [checkExecutable, readDentryByName_shellImage]
    simp only [wordAt, hbyte 0 (by decide), hbyte 1 (by decide), hbyte 2 (by decide),
      hbyte 3 (by decide), hbyte 24 (by decide), hbyte 25 (by decide), hbyte 26 (by decide),
      hbyte 27 (by decide)]
    decide +kernel
  fits d _ := by
    change 0x8048000 + 100 ≤ _
    decide

theorem bootKernel_bootState : Kernel.BootState shellMachine bootKernel where
  pcbs := rfl
  processNumber := rfl
  currentPcb := rfl
  terminalInfo := rfl
  paging := rfl
  tssEsp0 := rfl

/-- A state to which the results about runs apply. -/
theorem shellMachine_boots (ok : Kernel → Kernel.Step → Prop) :
    ∃ s, Kernel.Reachable shellMachine ok s ∧ s.Installed ∧ s.processNumber = 1 :=
  bootKernel_bootState.reachable blankFrame shellImage_hasShell ok

end KudOS
