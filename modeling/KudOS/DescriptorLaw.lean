import KudOS.FileLookup

/-!
# The law of the descriptor table

What a process can rely on when it opens, reads, writes and closes files, in every state of
every run of such calls from the `pcb_init` of the process on. The exception is `open` of a
string that goes on behind an entry's name of 32 bytes: it is the name of no entry, and
gets a descriptor if one is free.
-/

namespace KudOS

/-- Directory entries are clocks, directories or regular files. -/
def FsImage.TypesOk (img : FsImage) : Prop :=
  ∀ i < img.numDirEntries, (img.dirEntries i).ftype ≤ fileTypeReg

/-- The operations for a type of file. -/
def opsOfType (ftype : ℕ) : FileOps := if ftype = fileTypeRtc then .rtcOps else .fileOps

namespace Kernel

variable {m : Machine} {s s' : Kernel}

def InUse (s : Kernel) (fd : ℕ) : Prop := (s.files fd).flags = fileInUse

instance (s : Kernel) (fd : ℕ) : Decidable (s.InUse fd) := inferInstanceAs (Decidable (_ = _))

/-- The descriptor an operation names lies in the table. -/
def FileOp.InRange : FileOp → Prop
  | .open _ => True
  | .close fd | .read fd _ _ | .write fd _ _ => 0 ≤ fd ∧ fd ≤ 7

/-- The descriptor that an operation with the return value `r` may change. -/
def FileOp.Changes (r : ℤ) (fd : ℕ) : FileOp → Prop
  | .open _ => r = fd
  | .close n | .read n _ _ => n = fd
  | .write _ _ _ => False

/-- All of the descriptors 2 to 7 are in use. -/
def TableFull (s : Kernel) : Prop := ∀ fd, 2 ≤ fd → fd ≤ 7 → s.InUse fd

/-- The descriptors, and what the law says of all other calls. -/
structure FdLaw (m : Machine) (s : Kernel) : Prop where
  stdin : s.InUse 0
  stdout : s.InUse 1
  inUse_iff : ∀ fd, 2 ≤ fd → fd ≤ 7 → (s.InUse fd ↔ (s.files fd).fileOps ≠ none)
  close : ∀ fd : ℕ, fd ≤ 7 → ∃ r s', s.sysClose m fd = .ok (r, s') ∧
    (r = 0 ↔ 2 ≤ fd ∧ s.InUse fd) ∧ (r = 0 → ¬ s'.InUse fd)
  read_unused : ∀ (fd : ℕ) null n, fd ≤ 7 → ¬ s.InUse fd → s.sysRead m fd null n = .ok (-1, [], s)
  write_unused : ∀ (fd : ℕ) buf n, fd ≤ 7 → ¬ s.InUse fd → s.sysWrite m fd buf n = .ok (-1, s)
  /-- No operation is called through a NULL pointer. -/
  dispatched : ∀ op : FileOp, op.InRange → op.apply m s ≠ .error .fault
  /-- Other descriptors and other processes are left alone. -/
  others : ∀ (op : FileOp) r s', op.InRange → op.apply m s = .ok (r, s') → s'.cur = s.cur ∧
    (∀ i, i ≠ s.cur → s'.pcbs i = s.pcbs i) ∧ ∀ fd, ¬ op.Changes r fd → s'.files fd = s.files fd

/-- The calls a process makes on files, with interrupts between them. -/
inductive FileRun (m : Machine) : Kernel → Kernel → Prop where
  | start (s : Kernel) : FileRun m s s
  | call {s s₁ s₂ : Kernel} {op : FileOp} {r : ℤ} (h : FileRun m s s₁) (hop : op.InRange)
      (hx : op.apply m s₁ = .ok (r, s₂)) : FileRun m s s₂
  | interrupt {s s₁ : Kernel} {y : Tty} (h : FileRun m s s₁)
      (hy : y.currTerminal = s₁.tty.currTerminal) : FileRun m s { s₁ with tty := y }

/-! ## The parts of the law -/

theorem inUse_of_lt (h : FdTable s.files) {fd : ℕ} (h2 : fd < 2) : s.InUse fd := by
  rcases Nat.lt_succ_iff_lt_or_eq.mp h2 with h1 | rfl
  · obtain rfl : fd = 0 := by omega
    exact h.stdin.2
  · exact h.stdout.2

theorem flags_of_not_inUse (h : FdTable s.files) {fd : ℕ} (h7 : fd ≤ 7) (hno : ¬ s.InUse fd) :
    (s.files fd).flags = fileNotInUse := by
  by_cases h2 : fd < 2
  · exact absurd (inUse_of_lt h h2) hno
  · exact (h.slot fd (by omega) h7).flags_eq.resolve_right hno

theorem inUse_iff_fileOps (h : FdTable s.files) (fd : ℕ) (h2 : 2 ≤ fd) (h7 : fd ≤ 7) :
    s.InUse fd ↔ (s.files fd).fileOps ≠ none := (h.slot fd h2 h7).inUse_iff

theorem openedFd_spec (img : FsImage) (d : Dentry) :
    (openedFd img d).flags = fileInUse ∧ (openedFd img d).filePosition = 0 ∧
      (openedFd img d).fileOps = some (opsOfType d.ftype) := by
  unfold openedFd opsOfType
  by_cases h0 : d.ftype = fileTypeRtc
  · rw [if_pos h0, if_pos h0]
    exact ⟨rfl, rfl, rfl⟩
  · rw [if_neg h0, if_neg h0]
    split <;> exact ⟨rfl, rfl, rfl⟩

theorem sysOpen_found (himg : m.image.TypesOk) (h : FdTable s.files) {fname : ℕ → UInt8}
    {fd : ℕ} (hc : m.image.Contains fname) (h2 : 2 ≤ fd) (h7 : fd ≤ 7) (hfree : ¬ s.InUse fd)
    (hleast : ∀ j, 2 ≤ j → j < fd → s.InUse j) :
    ∃ i < m.image.numDirEntries, strncmp fname (m.image.dirEntries i).fname maxFnameLength = 0 ∧
      s.sysOpen m fname = ((fd : ℤ), withFiles { s with dentry := m.image.dirEntries i }
        (Function.update s.files fd (openedFd m.image (m.image.dirEntries i)))) := by
  rcases m.image.readDentryByName_cases fname with ⟨hno, -⟩ | ⟨i, hi, hmatch, hd⟩
  · exact absurd hc hno
  have hfd : findFreeFd s.curPcb = some fd := by
    refine findFreeFd_eq_some.mpr ⟨⟨h2, h7⟩, ?_, fun j hj hjfd => ?_⟩
    · by_contra hne
      exact hfree ((inUse_iff_fileOps h fd h2 h7).mpr hne)
    · exact (inUse_iff_fileOps h j hj (by omega)).mp (hleast j hj hjfd)
  exact ⟨i, hi, hmatch, openFile_eq m.image s hd hfd (himg i hi)⟩

theorem exists_least_free (hfull : ¬ s.TableFull) :
    ∃ fd, 2 ≤ fd ∧ fd ≤ 7 ∧ ¬ s.InUse fd ∧ ∀ j, 2 ≤ j → j < fd → s.InUse j := by
  classical
  have hex : ∃ fd, 2 ≤ fd ∧ fd ≤ 7 ∧ ¬ s.InUse fd := by
    by_contra hno
    refine hfull fun fd h2 h7 => ?_
    by_contra hfd
    exact hno ⟨fd, h2, h7, hfd⟩
  obtain ⟨h2, h7, hfree⟩ := Nat.find_spec hex
  refine ⟨Nat.find hex, h2, h7, hfree, fun j hj hlt => ?_⟩
  by_contra hno
  exact Nat.find_min hex hlt ⟨hj, by omega, hno⟩

theorem sysOpen_refused_iff (himg : m.image.TypesOk) (h : FdTable s.files) (fname : ℕ → UInt8) :
    (s.sysOpen m fname).1 = -1 ∧ (s.sysOpen m fname).2.pcbs = s.pcbs ↔
      ¬ m.image.Contains fname ∨ s.TableFull := by
  constructor
  · rintro ⟨hr, -⟩
    by_contra hno
    rw [not_or, not_not] at hno
    obtain ⟨fd, h2, h7, hfree, hleast⟩ := exists_least_free hno.2
    obtain ⟨i, -, -, hopen⟩ := sysOpen_found himg h hno.1 h2 h7 hfree hleast
    rw [hopen] at hr
    change (fd : ℤ) = -1 at hr
    omega
  · intro hno
    rcases m.image.readDentryByName_cases fname with ⟨-, hd⟩ | ⟨i, hi, hmatch, hd⟩
    · have hopen : s.sysOpen m fname = (-1, s) := by simp only [sysOpen, openFile, hd]
      rw [hopen]
      exact ⟨rfl, rfl⟩
    · have hfull := hno.resolve_left (not_not_intro ⟨i, hi, hmatch⟩)
      have hfd : findFreeFd (curPcb { s with dentry := m.image.dirEntries i }) = none :=
        findFreeFd_eq_none.mpr fun fd h2 h7 => (inUse_iff_fileOps h fd h2 h7).mp (hfull fd h2 h7)
      have hopen : s.sysOpen m fname = (-1, { s with dentry := m.image.dirEntries i }) := by
        simp only [sysOpen, openFile, hd, hfd]
      rw [hopen]
      exact ⟨rfl, rfl⟩

theorem sysClose_law (h : FdTable s.files) {fd : ℕ} (h7 : fd ≤ 7) :
    ∃ r s', s.sysClose m fd = .ok (r, s') ∧ (r = 0 ↔ 2 ≤ fd ∧ s.InUse fd) ∧
      (r = 0 → ¬ s'.InUse fd) := by
  by_cases hopen : 2 ≤ fd ∧ s.InUse fd
  · refine ⟨0, _, sysClose_open m s hopen.1 h7 (h.slot fd hopen.1 h7) hopen.2,
      ⟨fun _ => hopen, fun _ => rfl⟩, fun _ => ?_⟩
    rw [InUse, withFiles_files, Function.update_self, (closedFd_free _).2]
    decide
  · have hrefused : fd < 2 ∨ (s.files fd).flags = fileNotInUse := by
      by_cases h2 : fd < 2
      · exact Or.inl h2
      · exact Or.inr (flags_of_not_inUse h h7 fun hu => hopen ⟨by omega, hu⟩)
    exact ⟨-1, s, sysClose_refused m s h7 hrefused, ⟨fun hr => absurd hr (by decide),
      fun hc => absurd hc hopen⟩, fun hr => absurd hr (by decide)⟩

theorem sysRead_unused (h : FdTable s.files) {fd : ℕ} (null : Bool) (n : ℤ) (h7 : fd ≤ 7)
    (hno : ¬ s.InUse fd) : s.sysRead m fd null n = .ok (-1, [], s) := by
  have hflags : (s.files fd).flags = 0 := flags_of_not_inUse h h7 hno
  rw [sysRead_eq, flagsAt_eq m s h7, if_pos (.inl hflags)]

theorem sysWrite_unused (h : FdTable s.files) {fd : ℕ} (buf : Option (ℕ → UInt8)) (n : ℤ)
    (h7 : fd ≤ 7) (hno : ¬ s.InUse fd) : s.sysWrite m fd buf n = .ok (-1, s) := by
  have hflags : (s.files fd).flags = 0 := flags_of_not_inUse h h7 hno
  cases buf with
  | none => exact sysWrite_null m s fd n
  | some b => rw [sysWrite_eq, flagsAt_eq m s h7, if_pos (.inl hflags)]

/-- A descriptor in use from which one can read, or to which one can write, has the
operation for it. -/
theorem inUse_targets (h : FdTable s.files) {fd : ℕ} (h7 : fd ≤ 7) (hu : s.InUse fd) :
    (fd ≠ 1 → ∃ f, (s.files fd).fileOps.bind (fun o => o.table.readptr) = some f) ∧
      (fd ≠ 0 → ∃ f, (s.files fd).fileOps.bind (fun o => o.table.writeptr) = some f) := by
  by_cases h2 : 2 ≤ fd
  · rcases h.slot fd h2 h7 with ⟨-, hf⟩ | ⟨ho | ho, -⟩
    · rw [InUse, hf] at hu
      exact absurd hu (by decide)
    · rw [ho]
      exact ⟨fun _ => ⟨_, rfl⟩, fun _ => ⟨_, rfl⟩⟩
    · rw [ho]
      exact ⟨fun _ => ⟨_, rfl⟩, fun _ => ⟨_, rfl⟩⟩
  · obtain rfl | rfl : fd = 0 ∨ fd = 1 := by omega
    · rw [h.stdin.1]
      exact ⟨fun _ => ⟨_, rfl⟩, fun h0 => absurd rfl h0⟩
    · rw [h.stdout.1]
      exact ⟨fun h1 => absurd rfl h1, fun _ => ⟨_, rfl⟩⟩

theorem readFn_ne_fault (f : ReadFn) (fd : ℕ) (n : ℤ) : ReadFn.call m s fd n f ≠ .error .fault := by
  cases f with
  | terminalRead =>
    intro hx
    rcases bind_eq_error.mp hx with hread | ⟨_, _, hpure⟩
    · unfold Tty.terminalRead at hread
      split at hread <;> cases hread
    · cases hpure
  | readFile => exact fun h => nomatch h
  | rtcRead => exact fun h => nomatch h

theorem sysRead_ne_fault (h : FdTable s.files) {fd : ℕ} (h7 : fd ≤ 7) (null : Bool) (n : ℤ) :
    s.sysRead m fd null n ≠ .error .fault := by
  by_cases hu : s.InUse fd
  · rw [sysRead_eq]
    split
    · exact fun h => nomatch h
    · rename_i hchecks
      simp only [not_or] at hchecks
      obtain ⟨f, hf⟩ := (inUse_targets h h7 hu).1 (by omega)
      have hf' : s.readTarget fd = some f := hf
      rw [Int.toNat_natCast, hf']
      exact readFn_ne_fault f fd n
  · rw [sysRead_unused h null n h7 hu]
    exact fun h => nomatch h

theorem sysWrite_ne_fault (h : FdTable s.files) (hid : s.curPcb.programId = s.cur) {fd : ℕ}
    (h7 : fd ≤ 7) (buf : Option (ℕ → UInt8)) (n : ℤ) : s.sysWrite m fd buf n ≠ .error .fault := by
  by_cases hu : s.InUse fd
  · cases buf with
    | none =>
      rw [sysWrite_null]
      exact fun h => nomatch h
    | some b =>
      rw [sysWrite_eq]
      split
      · exact fun h => nomatch h
      · rename_i hchecks
        simp only [not_or] at hchecks
        obtain ⟨f, hf⟩ := (inUse_targets h h7 hu).2 (by omega)
        have hf' : s.writeTarget fd = some f := by
          rw [writeTarget, hid]
          exact hf
        rw [Int.toNat_natCast, hf']
        exact fun h => nomatch h
  · rw [sysWrite_unused h buf n h7 hu]
    exact fun h => nomatch h

theorem FileOp.apply_ne_fault (h : FdTable s.files) (hid : s.curPcb.programId = s.cur)
    {op : FileOp} (hop : op.InRange) : op.apply m s ≠ .error .fault := by
  cases op with
  | «open» fname => exact fun h => nomatch h
  | close fd =>
    obtain ⟨n, rfl⟩ := Int.eq_ofNat_of_zero_le hop.1
    have h7 : n ≤ 7 := Int.ofNat_le.mp hop.2
    obtain ⟨r, s', hx, -⟩ := sysClose_law (m := m) h h7
    change s.sysClose m n ≠ _
    rw [hx]
    exact fun h => nomatch h
  | read fd null k =>
    obtain ⟨n, rfl⟩ := Int.eq_ofNat_of_zero_le hop.1
    have h7 : n ≤ 7 := Int.ofNat_le.mp hop.2
    have hne := sysRead_ne_fault (m := m) h h7 null k
    intro hx
    rcases bind_eq_error.mp hx with hread | ⟨_, _, hpure⟩
    · exact hne hread
    · cases hpure
  | write fd buf k =>
    obtain ⟨n, rfl⟩ := Int.eq_ofNat_of_zero_le hop.1
    exact sysWrite_ne_fault h hid (Int.ofNat_le.mp hop.2) buf k

/-- What a call changes of the table of the current process. -/
theorem FileOp.apply_others (h : FdTable s.files) {op : FileOp} {r : ℤ} (hop : op.InRange)
    (hx : op.apply m s = .ok (r, s')) :
    ∃ fa, FileStep s fa s' ∧ ∀ fd, ¬ op.Changes r fd → fa fd = s.files fd := by
  cases op with
  | «open» fname =>
    have hres : s.sysOpen m fname = (r, s') := Except.ok.inj hx
    obtain ⟨fa, hstep, -, hother⟩ := sysOpen_step m s fname h
    rw [hres] at hstep hother
    exact ⟨fa, hstep, hother⟩
  | close fd =>
    obtain ⟨n, rfl⟩ := Int.eq_ofNat_of_zero_le hop.1
    have h7 : n ≤ 7 := Int.ofNat_le.mp hop.2
    obtain ⟨r', fa, hclose, -, -, hother⟩ := sysClose_eq m h h7
    change s.sysClose m n = _ at hx
    rw [hclose] at hx
    cases hx
    exact ⟨fa, .of_withFiles s fa, fun fd hfd => hother fd fun hn => hfd (by rw [hn]; rfl)⟩
  | read fd null k =>
    obtain ⟨⟨r', out, u⟩, hread, hpure⟩ := bind_eq_ok.mp hx
    cases hpure
    obtain ⟨p, hstep⟩ := sysRead_step hread
    refine ⟨_, hstep, fun j hj => Function.update_of_ne (fun hjf => hj ?_) ..⟩
    rw [hjf]
    exact (Int.toNat_of_nonneg hop.1).symm
  | write fd buf k => exact ⟨s.files, sysWrite_step hx, fun _ _ => rfl⟩

theorem fdLaw_of_table (h : FdTable s.files) (hid : s.curPcb.programId = s.cur) :
    FdLaw m s where
  stdin := h.stdin.2
  stdout := h.stdout.2
  inUse_iff := inUse_iff_fileOps h
  close _ h7 := sysClose_law h h7
  read_unused _ null n h7 hno := sysRead_unused h null n h7 hno
  write_unused _ buf n h7 hno := sysWrite_unused h buf n h7 hno
  dispatched _ hop := FileOp.apply_ne_fault h hid hop
  others op r s' hop hx := by
    obtain ⟨fa, hstep, hother⟩ := FileOp.apply_others h hop hx
    cases hstep with
    | intro y hy d c =>
      refine ⟨rfl, fun i hi => withFiles_pcbs_of_ne s fa hi, fun fd hfd => ?_⟩
      change (s.withFiles fa).files fd = _
      rw [withFiles_files, hother fd hfd]

/-! ## Whole runs -/

theorem fileStep_table {fa : ℕ → FsDescriptor} (h : FileStep s fa s') (hfa : FdTable fa)
    (hid : s.curPcb.programId = s.cur) :
    FdTable s'.files ∧ s'.curPcb.programId = s'.cur := by
  cases h with
  | intro y hy d r =>
    constructor
    · change FdTable (s.withFiles fa).files
      rwa [withFiles_files]
    · change (s.withFiles fa).curPcb.programId = s.cur
      rw [withFiles_curPcb]
      exact hid

theorem FileRun.table (h : FileRun m s s') (htab : FdTable s.files)
    (hid : s.curPcb.programId = s.cur) : FdTable s'.files ∧ s'.curPcb.programId = s'.cur := by
  induction h with
  | start => exact ⟨htab, hid⟩
  | call _ hop hx ih =>
    obtain ⟨htab₁, hid₁⟩ := ih
    obtain ⟨fa, hstep, hfa⟩ := FileOp.apply_step htab₁ hx
    exact fileStep_table hstep hfa hid₁
  | interrupt _ _ ih => exact ih

theorem FdClean.initial {s₀ : Kernel}
    (hclean : FdClean (s₀.pcbs (findFreePcb s₀.pcbs)).fileArray) :
    FdTable (s₀.pcbInit (findFreePcb s₀.pcbs)).files ∧
      (s₀.pcbInit (findFreePcb s₀.pcbs)).curPcb.programId =
        (s₀.pcbInit (findFreePcb s₀.pcbs)).cur := by
  have hcur : (s₀.pcbInit (findFreePcb s₀.pcbs)).curPcb =
      initPcb (s₀.pcbs (findFreePcb s₀.pcbs)) (findFreePcb s₀.pcbs) s₀.tty.currTerminal :=
    Function.update_self ..
  rw [files, hcur]
  exact ⟨(fdTable_initPcb hclean _ _).1, rfl⟩

theorem FileRun.open (h : FileRun m s s₁) {fname : ℕ → UInt8} {r : ℤ} {s₂ : Kernel}
    (hx : s₁.sysOpen m fname = (r, s₂)) : FileRun m s s₂ := by
  have hcall : FileOp.apply m s₁ (.open fname) = .ok (r, s₂) := congrArg Except.ok hx
  have hrange : FileOp.InRange (.open fname) := trivial
  exact h.call hrange hcall

theorem FileRun.close (h : FileRun m s s₁) {fd r : ℤ} {s₂ : Kernel} (h0 : 0 ≤ fd) (h7 : fd ≤ 7)
    (hx : s₁.sysClose m fd = .ok (r, s₂)) : FileRun m s s₂ := by
  have hcall : FileOp.apply m s₁ (.close fd) = .ok (r, s₂) := hx
  have hrange : FileOp.InRange (.close fd) := ⟨h0, h7⟩
  exact h.call hrange hcall

end Kernel
end KudOS
