import KudOS.SystemCalls
import KudOS.TerminalLocality

/-!
# The descriptor table of the current process

`find_free_fd` takes a descriptor as free when it has no operations, while `read`,
`write` and `close` look at its flags. `FdTable` is the invariant under which the two
agree; every operation on files keeps it and touches one descriptor of one process.
-/

namespace KudOS

/-- A descriptor from 2 on: closed, or open on a file or the clock. -/
def FdSlot (d : FsDescriptor) : Prop :=
  (d.fileOps = none ∧ d.flags = fileNotInUse) ∨
    ((d.fileOps = some .fileOps ∨ d.fileOps = some .rtcOps) ∧ d.flags = fileInUse)

/-- The descriptor table of a process. -/
structure FdTable (fa : ℕ → FsDescriptor) : Prop where
  stdin : (fa 0).fileOps = some .stdinOps ∧ (fa 0).flags = fileInUse
  stdout : (fa 1).fileOps = some .stdoutOps ∧ (fa 1).flags = fileInUse
  slot : ∀ fd, 2 ≤ fd → fd ≤ 7 → FdSlot (fa fd)

/-- No descriptor from 2 on is open. -/
def FdClean (fa : ℕ → FsDescriptor) : Prop :=
  ∀ fd, 2 ≤ fd → fd ≤ 7 → (fa fd).fileOps = none ∧ (fa fd).flags = fileNotInUse

theorem FdSlot.inUse_iff {d : FsDescriptor} (h : FdSlot d) :
    d.flags = fileInUse ↔ d.fileOps ≠ none := by
  rcases h with ⟨ho, hf⟩ | ⟨ho | ho, hf⟩ <;> simp [ho, hf]

theorem FdSlot.flags_eq {d : FsDescriptor} (h : FdSlot d) :
    d.flags = fileNotInUse ∨ d.flags = fileInUse := by
  rcases h with ⟨_, hf⟩ | ⟨_, hf⟩
  · exact Or.inl hf
  · exact Or.inr hf

theorem FdTable.update {fa : ℕ → FsDescriptor} (h : FdTable fa) {fd : ℕ} {d : FsDescriptor}
    (h2 : 2 ≤ fd) (hd : FdSlot d) : FdTable (Function.update fa fd d) := by
  have h0 : (0 : ℕ) ≠ fd := by omega
  have h1 : (1 : ℕ) ≠ fd := by omega
  refine ⟨?_, ?_, fun j hj hj' => ?_⟩
  · rw [Function.update_of_ne h0]
    exact h.stdin
  · rw [Function.update_of_ne h1]
    exact h.stdout
  · by_cases hjf : j = fd
    · rw [hjf, Function.update_self]
      exact hd
    · rw [Function.update_of_ne hjf]
      exact h.slot j hj hj'

namespace Kernel

/-! ## States that differ in the descriptors of the current process -/

/-- The state with the table `fa` in the current process. -/
def withFiles (s : Kernel) (fa : ℕ → FsDescriptor) : Kernel :=
  s.setPcb s.cur { s.curPcb with fileArray := fa }

def files (s : Kernel) : ℕ → FsDescriptor := s.curPcb.fileArray

theorem setFd_cur (s : Kernel) (fd : ℕ) (d : FsDescriptor) :
    s.setFd s.cur fd d = s.withFiles (Function.update s.files fd d) := rfl

@[simp] theorem withFiles_cur (s : Kernel) (fa : ℕ → FsDescriptor) :
    (s.withFiles fa).cur = s.cur := rfl

@[simp] theorem withFiles_tty (s : Kernel) (fa : ℕ → FsDescriptor) :
    (s.withFiles fa).tty = s.tty := rfl

theorem withFiles_curPcb (s : Kernel) (fa : ℕ → FsDescriptor) :
    (s.withFiles fa).curPcb = { s.curPcb with fileArray := fa } := Function.update_self ..

@[simp] theorem withFiles_files (s : Kernel) (fa : ℕ → FsDescriptor) :
    (s.withFiles fa).files = fa := by
  rw [files, withFiles_curPcb]

@[simp] theorem withFiles_withFiles (s : Kernel) (fa fb : ℕ → FsDescriptor) :
    (s.withFiles fa).withFiles fb = s.withFiles fb := by
  simp [withFiles, setPcb, curPcb, cur]

@[simp] theorem withFiles_self (s : Kernel) : s.withFiles s.files = s := by
  simp [withFiles, setPcb, curPcb, files]

theorem withFiles_pcbs_of_ne (s : Kernel) (fa : ℕ → FsDescriptor) {i : ℕ} (h : i ≠ s.cur) :
    (s.withFiles fa).pcbs i = s.pcbs i := Function.update_of_ne h ..

/-! ## close -/

/-- What `close` leaves of an open descriptor. -/
def closedFd (d : FsDescriptor) : FsDescriptor :=
  if d.fileOps = some .fileOps then ⟨none, 0, 0, fileNotInUse⟩
  else { d with fileOps := none, flags := fileNotInUse }

theorem closedFd_free (d : FsDescriptor) :
    (closedFd d).fileOps = none ∧ (closedFd d).flags = fileNotInUse := by
  unfold closedFd
  split <;> exact ⟨rfl, rfl⟩

theorem flagsAt_eq (m : Machine) (s : Kernel) {fd : ℕ} (h : fd ≤ 7) :
    s.flagsAt m fd = (s.files fd).flags := by
  have hb : (0 : ℤ) ≤ (fd : ℤ) ∧ (fd : ℤ) ≤ (fdMaxIdx : ℕ) := by
    rw [fdMaxIdx]
    omega
  rw [flagsAt, if_pos hb]
  rfl

theorem sysClose_refused (m : Machine) (s : Kernel) {fd : ℕ} (h7 : fd ≤ 7)
    (h : fd < 2 ∨ (s.files fd).flags = fileNotInUse) : s.sysClose m fd = .ok (-1, s) := by
  rw [sysClose, flagsAt_eq m s h7]
  by_cases hf : (s.files fd).flags = 0
  · rw [if_pos hf]
    rfl
  · have hlt : (fd : ℤ) < (fdMinIdx : ℕ) := by
      rcases h with h | h
      · rw [fdMinIdx]
        omega
      · exact absurd h hf
    rw [if_neg hf, if_pos hlt]
    rfl

theorem closeTarget_eq (s : Kernel) (fd : ℕ) :
    s.closeTarget fd = (s.files fd).fileOps.bind fun o => o.table.closeptr := rfl

theorem closeFile_eq (s : Kernel) (fd : ℕ) :
    s.closeFile fd = s.withFiles (Function.update s.files fd ⟨none, 0, 0, fileNotInUse⟩) := rfl

theorem removeFd_eq (s : Kernel) {fd : ℕ} (h2 : 2 ≤ fd) (h7 : fd ≤ 7) :
    s.removeFd s.cur fd =
      s.withFiles (Function.update s.files fd { s.files fd with fileOps := none }) := by
  rw [removeFd, if_neg (by rw [fdMinIdx, fdMaxIdx]; omega)]
  rfl

theorem sysClose_open (m : Machine) (s : Kernel) {fd : ℕ} (h2 : 2 ≤ fd) (h7 : fd ≤ 7)
    (hslot : FdSlot (s.files fd)) (hf : (s.files fd).flags = fileInUse) :
    s.sysClose m fd = .ok (0, s.withFiles (Function.update s.files fd (closedFd (s.files fd)))) := by
  have hne : ¬ (s.files fd).flags = 0 := by rw [hf]; decide
  have hmin : ¬ (fd : ℤ) < (fdMinIdx : ℕ) := by rw [fdMinIdx]; omega
  have hmax : ¬ (fd : ℤ) > (fdMaxIdx : ℕ) := by rw [fdMaxIdx]; omega
  have hin : (s.pcbs s.cur).fileArray fd = s.files fd := rfl
  let cleared := s.withFiles (Function.update s.files fd { s.files fd with flags := fileNotInUse })
  have hcleared : cleared.files fd = { s.files fd with flags := fileNotInUse } := by
    simp [cleared]
  have hremove : ∀ fa, (s.withFiles fa).removeFd s.cur fd =
      s.withFiles (Function.update fa fd { fa fd with fileOps := none }) := by
    intro fa
    have hr := removeFd_eq (s.withFiles fa) h2 h7
    rwa [withFiles_cur, withFiles_files, withFiles_withFiles] at hr
  have hclose : ∀ f, cleared.closeTarget fd = some f →
      s.sysClose m fd = .ok (0, (CloseFn.call cleared fd f).removeFd s.cur fd) := by
    intro f hf
    rw [sysClose, flagsAt_eq m s h7, if_neg hne, if_neg hmin, if_neg hmax]
    simp only [Int.toNat_natCast, hin, fileNotInUse, if_neg hne, setFd_cur]
    split
    · rename_i hnone
      exact absurd (hf.symm.trans hnone) (Option.some_ne_none f)
    · rename_i g hg
      cases Option.some.inj (hf.symm.trans hg)
      rfl
  have htarget : cleared.closeTarget fd = (s.files fd).fileOps.bind fun o => o.table.closeptr := by
    rw [closeTarget_eq, hcleared]
  rcases hslot with ⟨_, hno⟩ | ⟨hops | hops, _⟩
  · exact absurd hno hne
  · rw [hops] at htarget
    rw [hclose _ htarget, CloseFn.call, closeFile_eq, withFiles_withFiles, hremove]
    simp [cleared, closedFd, hops]
  · rw [hops] at htarget
    rw [hclose _ htarget, CloseFn.call, hremove]
    simp [closedFd, hops]

/-- Whatever the descriptor, `close` changes nothing but the current table. -/
theorem sysClose_frame {m : Machine} {s s' : Kernel} {fd r : ℤ}
    (h : s.sysClose m fd = .ok (r, s')) : ∃ fa, s' = s.withFiles fa := by
  have hsame : ∃ fa, s = s.withFiles fa := ⟨s.files, (withFiles_self s).symm⟩
  have hremove : ∀ fa n, ∃ fb, (s.withFiles fa).removeFd s.cur n = s.withFiles fb := by
    intro fa n
    unfold removeFd
    split
    · exact ⟨fa, rfl⟩
    · have hset := setFd_cur (s.withFiles fa) n
        { ((s.withFiles fa).pcbs s.cur).fileArray n with fileOps := none }
      rw [withFiles_withFiles] at hset
      exact ⟨_, hset⟩
  unfold sysClose at h
  split at h
  · cases h
    exact hsame
  split at h
  · cases h
    exact hsame
  split at h
  · cases h
    exact hsame
  dsimp only at h
  split at h
  · cases h
    exact hsame
  rw [setFd_cur] at h
  split at h
  · cases h
  · rename_i f _
    cases f with
    | closeFile =>
      cases h
      rw [CloseFn.call, closeFile_eq, withFiles_withFiles]
      exact hremove _ _
    | terminalClose =>
      cases h
      exact hremove _ _
    | rtcClose =>
      cases h
      exact hremove _ _

theorem closeAll_frame {m : Machine} {s s' : Kernel} (h : s.closeAll m = .ok s') :
    ∃ fa, s' = s.withFiles fa := by
  have hfold : ∀ (l : List ℕ) (u : Kernel), (∃ fa, u = s.withFiles fa) →
      l.foldlM (fun s (i : ℕ) => do return (← s.sysClose m i).2) u = .ok s' →
      ∃ fa, s' = s.withFiles fa := by
    intro l
    induction l with
    | nil =>
      intro u hu hr
      cases hr
      exact hu
    | cons i l ih =>
      rintro _ ⟨fa, rfl⟩ hr
      rw [List.foldlM_cons] at hr
      obtain ⟨u', hu', hr⟩ := bind_eq_ok.mp hr
      obtain ⟨⟨r, u''⟩, hclose, hpure⟩ := bind_eq_ok.mp hu'
      cases hpure
      obtain ⟨fb, hfb⟩ := sysClose_frame hclose
      rw [withFiles_withFiles] at hfb
      exact ih u'' ⟨fb, hfb⟩ hr
  exact hfold _ s ⟨s.files, (withFiles_self s).symm⟩ h

/-- `close` of any descriptor of a proper table: afterwards it is not open. -/
theorem sysClose_eq (m : Machine) {s : Kernel} (h : FdTable s.files) {fd : ℕ} (h7 : fd ≤ 7) :
    ∃ r fa, s.sysClose m fd = .ok (r, s.withFiles fa) ∧ FdTable fa ∧
      (2 ≤ fd → (fa fd).fileOps = none ∧ (fa fd).flags = fileNotInUse) ∧
      ∀ j, j ≠ fd → fa j = s.files j := by
  by_cases hopen : 2 ≤ fd ∧ (s.files fd).flags = fileInUse
  · have hslot := h.slot fd hopen.1 h7
    refine ⟨0, _, sysClose_open m s hopen.1 h7 hslot hopen.2,
      h.update hopen.1 (Or.inl (closedFd_free (s.files fd))), fun _ => ?_, fun j hj => ?_⟩
    · rw [Function.update_self]
      exact closedFd_free (s.files fd)
    · exact Function.update_of_ne hj ..
  · have hfree : 2 ≤ fd → (s.files fd).fileOps = none ∧ (s.files fd).flags = fileNotInUse := by
      intro h2
      rcases h.slot fd h2 h7 with hfree | ⟨_, hf⟩
      · exact hfree
      · exact absurd ⟨h2, hf⟩ hopen
    have hrefused : fd < 2 ∨ (s.files fd).flags = fileNotInUse := by
      by_cases h2 : 2 ≤ fd
      · exact Or.inr (hfree h2).2
      · exact Or.inl (by omega)
    refine ⟨-1, s.files, ?_, h, hfree, fun _ _ => rfl⟩
    rw [withFiles_self]
    exact sysClose_refused m s h7 hrefused

/-- The loops of `halt` leave a proper table without open descriptors. -/
theorem closeAll_eq (m : Machine) {s : Kernel} (h : FdTable s.files) :
    ∃ fa, s.closeAll m = .ok (s.withFiles fa) ∧ FdTable fa ∧ FdClean fa := by
  have hloop := foldlM_range_ok (f := fun s (i : ℕ) => do return (← sysClose m s i).2)
    (P := fun n u => ∃ fa, u = s.withFiles fa ∧ FdTable fa ∧
      ∀ fd, 2 ≤ fd → fd < n → (fa fd).fileOps = none ∧ (fa fd).flags = fileNotInUse)
    (n := fdMaxIdx + 1) (s := s) ?_ ?_
  · obtain ⟨_, hrun, fa, rfl, htab, hclean⟩ := hloop
    refine ⟨fa, hrun, htab, fun fd h2 h7 => hclean fd h2 ?_⟩
    rw [fdMaxIdx]
    omega
  · exact ⟨s.files, (withFiles_self s).symm, h, fun fd _ hlt => by omega⟩
  · rintro n hn _ ⟨fa, rfl, htab, hclean⟩
    rw [fdMaxIdx] at hn
    have h7 : n ≤ 7 := by omega
    obtain ⟨r, fb, hclose, htab', hfree, hother⟩ :=
      sysClose_eq m (s := s.withFiles fa) (by rwa [withFiles_files]) h7
    rw [withFiles_withFiles] at hclose
    refine ⟨s.withFiles fb, by rw [hclose]; rfl, fb, rfl, htab', fun fd h2 hlt => ?_⟩
    by_cases hfd : fd = n
    · subst hfd
      exact hfree h2
    · rw [hother fd hfd, withFiles_files]
      exact hclean fd h2 (by omega)

/-! ## open -/

theorem findFreeFd_eq_some {p : Pcb} {fd : ℕ} :
    findFreeFd p = some fd ↔ (2 ≤ fd ∧ fd ≤ 7) ∧ (p.fileArray fd).fileOps = none ∧
      ∀ j, 2 ≤ j → j < fd → (p.fileArray j).fileOps ≠ none := by
  rw [findFreeFd, List.find?_range'_eq_some, List.mem_range'_1, fdMinIdx, fdMaxIdx]
  simp only [Option.isNone_iff_eq_none, Bool.not_eq_true', Option.isNone_eq_false_iff,
    Option.isSome_iff_ne_none]
  constructor
  · rintro ⟨hfree, hrange, hleast⟩
    exact ⟨by omega, hfree, hleast⟩
  · rintro ⟨hrange, hfree, hleast⟩
    exact ⟨hfree, by omega, hleast⟩

theorem findFreeFd_eq_none {p : Pcb} :
    findFreeFd p = none ↔ ∀ fd, 2 ≤ fd → fd ≤ 7 → (p.fileArray fd).fileOps ≠ none := by
  rw [findFreeFd, List.find?_range'_eq_none, fdMinIdx, fdMaxIdx]
  simp only [Bool.not_eq_true', Option.isNone_eq_false_iff, Option.isSome_iff_ne_none]
  constructor
  · intro h fd h2 h7
    exact h fd h2 (by omega)
  · intro h fd h2 h7
    exact h fd h2 (by omega)

/-- The descriptor `open_file` makes for the entry `d`. -/
def openedFd (img : FsImage) (d : Dentry) : FsDescriptor :=
  if d.ftype = fileTypeRtc then ⟨some .rtcOps, 0, 0, fileInUse⟩
  else if d.ftype = fileTypeDir then ⟨some .fileOps, 0, 0, fileInUse⟩
  else ⟨some .fileOps, (img.fsStart + (d.inode + 1) * blockSize) % wordSize, 0, fileInUse⟩

/-- `open_file` for an entry that was found and a table with a free descriptor. -/
theorem openFile_eq (img : FsImage) (s : Kernel) {fname : ℕ → UInt8} {d : Dentry} {fd : ℕ}
    (hd : img.readDentryByName fname = some d) (hfd : findFreeFd s.curPcb = some fd)
    (ht : d.ftype ≤ fileTypeReg) :
    s.openFile img fname =
      ((fd : ℤ), withFiles { s with dentry := d }
        (Function.update s.files fd (openedFd img d))) := by
  have hfd' : findFreeFd (curPcb { s with dentry := d }) = some fd := hfd
  simp only [openFile, hd, hfd', openedFd, setFd_cur]
  by_cases h0 : d.ftype = fileTypeRtc
  · rw [if_pos h0, if_pos h0]
    rfl
  by_cases h1 : d.ftype = fileTypeDir
  · rw [if_neg h0, if_pos h1, if_neg h0, if_pos h1]
    rfl
  · have h2 : d.ftype = fileTypeReg := by
      rw [fileTypeRtc] at h0
      rw [fileTypeDir] at h1
      rw [fileTypeReg] at ht ⊢
      omega
    rw [if_neg h0, if_neg h1, if_pos h2, if_neg h0, if_neg h1]
    rfl

/-! ## read and write -/

/-- `s'` is `s` with the table `fa`, up to what a call can do to the screen of the
active terminal, to the clock and to the global `dentry`. -/
inductive FileStep (s : Kernel) (fa : ℕ → FsDescriptor) : Kernel → Prop where
  | intro (y : Tty) (hy : y.currTerminal = s.tty.currTerminal) (d : Dentry) (r : Rtc) :
      FileStep s fa { s.withFiles fa with tty := y, dentry := d, rtc := r }

theorem FileStep.of_withFiles (s : Kernel) (fa : ℕ → FsDescriptor) :
    FileStep s fa (s.withFiles fa) := .intro s.tty rfl s.dentry s.rtc

theorem FileStep.keep (s : Kernel) (y : Tty) (hy : y.currTerminal = s.tty.currTerminal)
    (d : Dentry) (r : Rtc) : FileStep s s.files { s with tty := y, dentry := d, rtc := r } := by
  have h : FileStep s s.files { s.withFiles s.files with tty := y, dentry := d, rtc := r } :=
    .intro y hy d r
  rwa [withFiles_self] at h

theorem FileStep.refl (s : Kernel) : FileStep s s.files s := by
  have h := FileStep.of_withFiles s s.files
  rwa [withFiles_self] at h

/-- The table after the position of descriptor `fd` was set to `p`. -/
def movedTo (s : Kernel) (fd p : ℕ) : ℕ → FsDescriptor :=
  Function.update s.files fd { s.files fd with filePosition := p }

theorem movedTo_self (s : Kernel) (fd : ℕ) : s.movedTo fd (s.files fd).filePosition = s.files :=
  Function.update_eq_self ..

theorem readFile_step (img : FsImage) (s : Kernel) (fd : ℕ) (n : ℤ) :
    ∃ p, FileStep s (s.movedTo fd p) (s.readFile img fd n).2 := by
  unfold readFile
  split
  · unfold readDir
    dsimp only
    split
    · exact ⟨_, .of_withFiles s _⟩
    · refine ⟨(s.files fd).filePosition, ?_⟩
      rw [movedTo_self]
      exact .refl s
  · exact ⟨_, .of_withFiles s _⟩

theorem terminalRead_currTerminal {y y' : Tty} {n : ℤ} {out : List UInt8}
    (h : y.terminalRead n = .ok (out, y')) : y'.currTerminal = y.currTerminal := by
  unfold Tty.terminalRead at h
  split at h
  · cases h
    exact (Tty.local_newLine true y).active
  · cases h

theorem terminalWrite_currTerminal (y : Tty) (buf : Option (ℕ → UInt8)) (n : ℤ) :
    (y.terminalWrite buf n).2.currTerminal = y.currTerminal :=
  (Tty.local_terminalWrite buf n y).active

/-- The checks of `read`, and its call. -/
theorem sysRead_eq (m : Machine) (s : Kernel) (fd : ℤ) (null : Bool) (n : ℤ) :
    s.sysRead m fd null n =
      if s.flagsAt m fd = 0 ∨ null ∨ fdMaxIdx < fd ∨ fd < 0 ∨ fd = 1 then .ok (-1, [], s)
      else match s.readTarget fd.toNat with
        | none => .error .fault
        | some f => ReadFn.call m s fd.toNat n f := by
  rw [ite_or, ite_or, ite_or, ite_or]
  rfl

theorem sysWrite_null (m : Machine) (s : Kernel) (fd n : ℤ) :
    s.sysWrite m fd none n = .ok (-1, s) := ite_self _

/-- The checks of `write`, and its call. -/
theorem sysWrite_eq (m : Machine) (s : Kernel) (fd : ℤ) (buf : ℕ → UInt8) (n : ℤ) :
    s.sysWrite m fd (some buf) n =
      if s.flagsAt m fd = 0 ∨ fdMaxIdx < fd ∨ fd ≤ 0 then .ok (-1, s)
      else match s.writeTarget fd.toNat with
        | none => .error .fault
        | some f => .ok (WriteFn.call s buf n f) := by
  rw [ite_or, ite_or]
  rfl

/-- `read` moves the position of the descriptor it reads from. -/
theorem sysRead_step {m : Machine} {s s' : Kernel} {fd nbytes r : ℤ} {null : Bool}
    {out : List UInt8} (h : s.sysRead m fd null nbytes = .ok (r, out, s')) :
    ∃ p, FileStep s (s.movedTo fd.toNat p) s' := by
  have hsame : ∃ p, FileStep s (s.movedTo fd.toNat p) s := by
    refine ⟨(s.files fd.toNat).filePosition, ?_⟩
    rw [movedTo_self]
    exact .refl s
  have hscreen : ∀ y : Tty, y.currTerminal = s.tty.currTerminal →
      ∀ c, ∃ p, FileStep s (s.movedTo fd.toNat p) { s with tty := y, rtc := c } := by
    intro y hy c
    refine ⟨(s.files fd.toNat).filePosition, ?_⟩
    rw [movedTo_self]
    exact .keep s y hy s.dentry c
  rw [sysRead_eq] at h
  split at h
  · cases h
    exact hsame
  split at h
  · cases h
  · rename_i f _
    cases f with
    | terminalRead =>
      obtain ⟨⟨out', y⟩, hread, hpure⟩ := bind_eq_ok.mp h
      cases hpure
      exact hscreen y (terminalRead_currTerminal hread) s.rtc
    | readFile =>
      cases h
      exact readFile_step m.image s fd.toNat nbytes
    | rtcRead =>
      cases h
      exact hscreen s.tty rfl _

theorem sysWrite_step {m : Machine} {s s' : Kernel} {fd nbytes r : ℤ}
    {buf : Option (ℕ → UInt8)} (h : s.sysWrite m fd buf nbytes = .ok (r, s')) :
    FileStep s s.files s' := by
  have hscreen : ∀ y : Tty, y.currTerminal = s.tty.currTerminal →
      ∀ c, FileStep s s.files { s with tty := y, rtc := c } :=
    fun y hy c => .keep s y hy s.dentry c
  cases buf with
  | none =>
    rw [sysWrite_null] at h
    cases h
    exact .refl s
  | some b =>
  rw [sysWrite_eq] at h
  split at h
  · cases h
    exact .refl s
  split at h
  · cases h
  · rename_i f _
    cases f with
    | terminalWrite =>
      cases h
      exact hscreen _ (terminalWrite_currTerminal s.tty (some b) nbytes) s.rtc
    | writeFile =>
      cases h
      exact .refl s
    | rtcWrite =>
      change Except.ok (s.rtcWrite b) = _ at h
      unfold rtcWrite at h
      split at h
      · cases h
        exact .refl s
      · cases h
        exact hscreen s.tty rfl _

/-! ## The four calls -/

inductive FileOp where
  | open (filename : ℕ → UInt8)
  | close (fd : ℤ)
  | read (fd : ℤ) (bufIsNull : Bool) (nbytes : ℤ)
  | write (fd : ℤ) (buf : Option (ℕ → UInt8)) (nbytes : ℤ)

def FileOp.apply (m : Machine) (s : Kernel) : FileOp → Except Stop (ℤ × Kernel)
  | .open filename => .ok (s.sysOpen m filename)
  | .close fd => s.sysClose m fd
  | .read fd bufIsNull nbytes => do
    let (r, _, s) ← s.sysRead m fd bufIsNull nbytes
    return (r, s)
  | .write fd buf nbytes => s.sysWrite m fd buf nbytes

/-- `open` changes the descriptor that it returns. -/
theorem sysOpen_step (m : Machine) (s : Kernel) (fname : ℕ → UInt8) (h : FdTable s.files) :
    ∃ fa, FileStep s fa (s.sysOpen m fname).2 ∧ FdTable fa ∧
      ∀ j : ℕ, (s.sysOpen m fname).1 ≠ j → fa j = s.files j := by
  unfold sysOpen openFile
  split
  · exact ⟨s.files, .refl s, h, fun _ _ => rfl⟩
  · rename_i d _
    have hdentry : FileStep s s.files { s with dentry := d } := .keep s s.tty rfl d s.rtc
    dsimp only
    split
    · exact ⟨s.files, hdentry, h, fun _ _ => rfl⟩
    · rename_i fd hfd
      have h2 := (findFreeFd_eq_some.mp hfd).1.1
      have hset : ∀ e, FdSlot e → ∃ fa, FileStep s fa
          (setFd { s with dentry := d } (cur { s with dentry := d }) fd e) ∧ FdTable fa ∧
          ∀ j : ℕ, (fd : ℤ) ≠ j → fa j = s.files j := by
        intro e he
        refine ⟨Function.update s.files fd e, .intro s.tty rfl d s.rtc, h.update h2 he,
          fun j hj => Function.update_of_ne ?_ ..⟩
        rintro rfl
        exact hj rfl
      split
      · exact hset _ (Or.inr ⟨Or.inr rfl, rfl⟩)
      split
      · exact hset _ (Or.inr ⟨Or.inl rfl, rfl⟩)
      split
      · exact hset _ (Or.inr ⟨Or.inl rfl, rfl⟩)
      · exact ⟨s.files, hdentry, h, fun _ _ => rfl⟩

theorem sysClose_outOfRange (m : Machine) (s : Kernel) {fd : ℤ} (h : fd < 0 ∨ 7 < fd) :
    s.sysClose m fd = .ok (-1, s) := by
  unfold sysClose
  split
  · rfl
  split
  · rfl
  · rename_i _ hmin
    rw [fdMinIdx] at hmin
    rw [if_pos (by rw [fdMaxIdx]; omega)]
    rfl

theorem movedTo_fdTable {s : Kernel} (h : FdTable s.files) (fd p : ℕ) :
    FdTable (s.movedTo fd p) := by
  have hfields : ∀ j, (s.movedTo fd p j).fileOps = (s.files j).fileOps ∧
      (s.movedTo fd p j).flags = (s.files j).flags := by
    intro j
    by_cases hj : j = fd
    · subst hj
      simp [movedTo]
    · simp [movedTo, hj]
  refine ⟨?_, ?_, fun j h2 h7 => ?_⟩
  · rw [(hfields 0).1, (hfields 0).2]
    exact h.stdin
  · rw [(hfields 1).1, (hfields 1).2]
    exact h.stdout
  · have hslot := h.slot j h2 h7
    unfold FdSlot at hslot ⊢
    rwa [(hfields j).1, (hfields j).2]

/-- Every call keeps the table and touches nothing but the table, the screen of the
active terminal, the clock and `dentry`. -/
theorem FileOp.apply_step {m : Machine} {s s' : Kernel} {op : FileOp} {r : ℤ}
    (h : FdTable s.files) (hx : op.apply m s = .ok (r, s')) :
    ∃ fa, FileStep s fa s' ∧ FdTable fa := by
  cases op with
  | «open» fname =>
    have hres : s.sysOpen m fname = (r, s') := Except.ok.inj hx
    obtain ⟨fa, hstep, hfa, -⟩ := sysOpen_step m s fname h
    rw [hres] at hstep
    exact ⟨fa, hstep, hfa⟩
  | close fd =>
    change s.sysClose m fd = .ok (r, s') at hx
    by_cases hr : fd < 0 ∨ 7 < fd
    · rw [sysClose_outOfRange m s hr] at hx
      cases hx
      exact ⟨s.files, .refl s, h⟩
    · obtain ⟨n, rfl⟩ := Int.eq_ofNat_of_zero_le (a := fd) (by omega)
      have h7 : n ≤ 7 := by omega
      obtain ⟨r', fa, hclose, htab, -⟩ := sysClose_eq m h h7
      rw [hclose] at hx
      cases hx
      exact ⟨fa, .of_withFiles s fa, htab⟩
  | read fd null n =>
    obtain ⟨⟨r', out, u⟩, hread, hpure⟩ := bind_eq_ok.mp hx
    cases hpure
    obtain ⟨p, hstep⟩ := sysRead_step hread
    exact ⟨_, hstep, movedTo_fdTable h _ p⟩
  | write fd buf n => exact ⟨s.files, sysWrite_step hx, h⟩

end Kernel
end KudOS
