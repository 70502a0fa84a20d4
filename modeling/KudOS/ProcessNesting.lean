import KudOS.ShellStart

/-!
# execute and halt as call and return

A call of `execute` that returns at once leaves no trace. One that starts a program is
undone by the `halt` of that program, whatever the program did in between, including
programs that it started and that ended before it.
-/

namespace KudOS.Kernel

variable {m : Machine} {fr : StackFrame} {s s' : Kernel} {σ : TerminalId → List ℕ}

/-! ## Refused commands -/

/-- The reasons for which `execute` starts no program, for a command whose parts fit
their arrays. -/
def Refused (m : Machine) (fr : StackFrame) (s : Kernel) (command : Option (List UInt8)) : Prop :=
  s.processNumber = 6 ∨ checkCommand command = none ∨
    ∃ name args, checkCommand command = some (name, args) ∧
      name.length < maxCmdLength ∧ args.length < maxCmdLength ∧
      checkExecutable m.image fr.elfHeader (cString name) = none

theorem execute_refused (h : s.Ready σ) {command : Option (List UInt8)}
    (hno : Refused m fr s command) : ∃ v s', s.execute m fr command = .ok (.returned v, s') := by
  have hle : s.processNumber ≤ 6 := h.stacked.processNumber_le
  have hinc : inc32 s.processNumber = s.processNumber + 1 := inc32_of_lt (by omega)
  rw [execute, hinc, maxProcesses]
  by_cases hn : s.processNumber = 6
  · rw [if_pos (by omega)]
    exact ⟨_, _, rfl⟩
  rw [if_neg (by omega)]
  obtain ⟨i, h1, h6, hfree, hspawn⟩ := spawn_eq h (by omega)
  rw [hspawn, ok_bind]
  change ∃ v s', loadCommand m fr (s.pushed i) i command = .ok (.returned v, s')
  rw [loadCommand_pushed h.stacked]
  rcases hno with hfull | hbad | ⟨name, args, hparts, hname, hargs, hfile⟩
  · exact absurd hfull hn
  · rw [hbad]
    exact ⟨_, _, rfl⟩
  · have hstored := checkExecutable_congr m.image fr.elfHeader (cString_length name)
      fun k hk => storeString_eq (s.pcbs i).cmdName name hk
    rw [hparts]
    dsimp only
    rw [if_pos ⟨hname, hargs⟩, hstored, hfile]
    exact ⟨_, _, rfl⟩

/-- What a caller of `execute` can observe of the kernel. -/
structure CallerState (s s' : Kernel) : Prop where
  processNumber : s'.processNumber = s.processNumber
  terminalInfo : s'.terminalInfo = s.terminalInfo
  currentPcb : s'.currentPcb = s.currentPcb
  programId : ∀ i, (s'.pcbs i).programId = (s.pcbs i).programId
  parentId : ∀ i, (s'.pcbs i).parentId = (s.pcbs i).parentId
  /-- Descriptors, positions and saved registers of the processes that were live. -/
  pcbs_of_live : ∀ i, s.Live i → s'.pcbs i = s.pcbs i
  directories : ∀ i, 1 ≤ i → s.Live i →
    s'.paging.pageDirectories (i - 1) = s.paging.pageDirectories (i - 1)
  cr3 : s'.paging.cr3 = s.paging.cr3
  tssEsp0 : s'.tssEsp0 = s.tssEsp0

theorem Restored.callerState (h : s.Restored s') (hc : s.currentPcb = some s.cur)
    (hc' : s'.currentPcb = some s'.cur) : s.CallerState s' where
  processNumber := congrArg ProcTable.processNumber h.procTable
  terminalInfo := congrArg ProcTable.terminalInfo h.procTable
  currentPcb := by rw [hc, hc', h.cur]
  programId i := congrArg (fun c => c.programId i) h.procTable
  parentId i := congrArg (fun c => c.parentId i) h.procTable
  pcbs_of_live := h.pcbs_of_live
  directories := h.directories
  cr3 := h.cr3
  tssEsp0 := h.tssEsp0

/-- Every refused command returns, and every call of `execute` that returns has left the
processes, the installed process and all page directories as they were. -/
theorem execute_returned_unchanged (h : Reachable m ByLive s) (fr : StackFrame)
    (command : Option (List UInt8)) :
    (Refused m fr s command → ∃ v s', s.execute m fr command = .ok (.returned v, s')) ∧
    ∀ v s', s.execute m fr command = .ok (.returned v, s') →
      s.CallerState s' ∧ s'.paging.pageDirectories = s.paging.pageDirectories := by
  obtain ⟨σ, hs⟩ := h.sound
  refine ⟨execute_refused hs.ready, fun v s' hx => ?_⟩
  have hres := execute_cases hs.ready hx
  obtain ⟨hsame, hpaging, -⟩ := hres.unchanged hs.toWf
  exact ⟨hsame.callerState hs.current (hres.current hs.current), by rw [hpaging]⟩

/-- A blank command is refused in the state after the boot. -/
theorem booted_blank_unchanged :
    ∃ s, Reachable shellMachine ByLive s ∧ ∃ v s',
      s.execute shellMachine blankFrame (some (literal " ls")) = .ok (.returned v, s') ∧
      s.CallerState s' := by
  obtain ⟨s, hs, -⟩ := shellMachine_boots ByLive
  have hlaw := execute_returned_unchanged hs blankFrame (some (literal " ls"))
  obtain ⟨v, s', hx⟩ := hlaw.1 (Or.inr (Or.inl (by decide +kernel)))
  exact ⟨s, hs, v, s', hx, (hlaw.2 v s' hx).1⟩

/-! ## Nested programs -/

/-- What the current process can do without leaving its terminal: system calls on
files, `vidmap`, commands that are refused, and programs that it starts and that end.
Interrupts may write to the terminals meanwhile. -/
inductive Activity (m : Machine) : Kernel → Kernel → Prop where
  | done (s : Kernel) : Activity m s s
  | file {s s₁ s₂ : Kernel} {op : FileOp} {r : ℤ} (hx : op.apply m s = .ok (r, s₁))
      (rest : Activity m s₁ s₂) : Activity m s s₂
  | vidmap {s s₁ s₂ : Kernel} {v : ℕ} {r : ℤ} (hx : s.vidmap m v = .ok (r, s₁))
      (rest : Activity m s₁ s₂) : Activity m s s₂
  | interrupt {s s₂ : Kernel} {y : Tty} (hy : y.currTerminal = s.tty.currTerminal)
      (rest : Activity m { s with tty := y } s₂) : Activity m s s₂
  | refused {s s₁ s₂ : Kernel} {fr : StackFrame} {command : Option (List UInt8)} {v : ℤ}
      (hx : s.execute m fr command = .ok (.returned v, s₁)) (rest : Activity m s₁ s₂) :
      Activity m s s₂
  | program {s s₁ s₂ s₃ s₄ : Kernel} {fr fr' : StackFrame} {command : Option (List UInt8)}
      {entry : ℕ} {status : UInt8} {o : HaltOutcome}
      (hx : s.execute m fr command = .ok (.started entry, s₁)) (body : Activity m s₁ s₂)
      (hh : s₂.halt m fr' status = .ok (o, s₃)) (rest : Activity m s₃ s₄) : Activity m s s₄

/-- An activity leaves everything to the other processes and keeps the current process
current, installed and able to return. -/
structure Keeps (s s' : Kernel) : Prop where
  procTable : s'.procTable = s.procTable
  cur : s'.cur = s.cur
  pcbs_of_live : ∀ i, s.Live i → i ≠ s.cur → s'.pcbs i = s.pcbs i
  directories : ∀ i, 1 ≤ i → s.Live i → i ≠ s.cur →
    s'.paging.pageDirectories (i - 1) = s.paging.pageDirectories (i - 1)
  esp : s'.curPcb.esp = s.curPcb.esp
  ebp : s'.curPcb.ebp = s.curPcb.ebp
  currTerminal : s'.tty.currTerminal = s.tty.currTerminal

theorem Keeps.refl (s : Kernel) : s.Keeps s :=
  ⟨rfl, rfl, fun _ _ _ => rfl, fun _ _ _ _ => rfl, rfl, rfl, rfl⟩

theorem Keeps.trans {s₁ s₂ s₃ : Kernel} (h : s₁.Keeps s₂) (h' : s₂.Keeps s₃) : s₁.Keeps s₃ where
  procTable := h'.procTable.trans h.procTable
  cur := h'.cur.trans h.cur
  pcbs_of_live i hlive hne := by
    have hpcb := h.pcbs_of_live i hlive hne
    rw [h'.pcbs_of_live i (by rwa [Live, hpcb]) (by rwa [h.cur]), hpcb]
  directories i h1 hlive hne := by
    have hpcb := h.pcbs_of_live i hlive hne
    rw [h'.directories i h1 (by rwa [Live, hpcb]) (by rwa [h.cur]), h.directories i h1 hlive hne]
  esp := h'.esp.trans h.esp
  ebp := h'.ebp.trans h.ebp
  currTerminal := h'.currTerminal.trans h.currTerminal

theorem Restored.keeps (h : s.Restored s') (hlive : s.Live s.cur) : s.Keeps s' := by
  have hcur : s'.curPcb = s.curPcb := by rw [curPcb, h.cur, h.pcbs_of_live s.cur hlive, curPcb]
  exact ⟨h.procTable, h.cur, fun i hi _ => h.pcbs_of_live i hi,
    fun i h1 hi _ => h.directories i h1 hi, by rw [hcur], by rw [hcur], h.currTerminal⟩

theorem Keeps.live (h : s.Keeps s') (hs : s.Sound σ) (hs' : s'.Sound σ)
    (hlive : s.Live s.cur) : s'.Live s'.cur := by
  rw [hs'.ready.live_iff, h.currTerminal, h.cur]
  exact hs.ready.live_iff.mp hlive

theorem FileStep.keeps {fa : ℕ → FsDescriptor} (h : FileStep s fa s') : s.Keeps s' := by
  cases h with
  | intro y hy d r =>
    have hcur := withFiles_curPcb s fa
    refine ⟨procTable_withFiles s fa, rfl, fun i _ hne => withFiles_pcbs_of_ne s fa hne,
      fun _ _ _ _ => rfl, ?_, ?_, hy⟩
    · change (s.withFiles fa).curPcb.esp = _
      rw [hcur]
    · change (s.withFiles fa).curPcb.ebp = _
      rw [hcur]

theorem Sound.vidmap_keeps (h : s.Sound σ) (hlive : s.Live s.cur) {v : ℕ} {r : ℤ}
    (hx : s.vidmap m v = .ok (r, s')) : s.Keeps s' := by
  obtain ⟨p, mem, -, hothers, rfl⟩ := h.vidmap_paging hlive hx
  refine ⟨rfl, rfl, fun _ _ _ => rfl, fun i h1 _ hne => hothers _ ?_, rfl, rfl, rfl⟩
  have hcur : 1 ≤ s.cur := by
    rw [← h.toWf.programId_cur]
    exact Nat.one_le_iff_ne_zero.mpr hlive
  omega

theorem interrupt_keeps {y : Tty} (hy : y.currTerminal = s.tty.currTerminal) :
    s.Keeps { s with tty := y } := ⟨rfl, rfl, fun _ _ _ => rfl, fun _ _ _ _ => rfl, rfl, rfl, hy⟩

/-- A program that was launched and has kept to itself is taken back: what is left is
the state in which its parent `s.cur` launched it. -/
theorem restored_resumed {s₂ : Kernel} {i : ℕ} {name args mem : ℕ → UInt8}
    {fa : ℕ → FsDescriptor} (h : s.Sound σ) (hlive : s.Live s.cur) (h1 : 1 ≤ i) (h6 : i ≤ 6)
    (hfree : (s.pcbs i).programId = 0) (hk : (s.launched m fr i name args mem).Keeps s₂)
    (hparent : s₂.curPcb.parentId = s.cur) (hinst₃ : (s₂.resumed fa).Installed) :
    s.Restored (s₂.resumed fa) := by
  have hcur₂ : s₂.cur = i := hk.cur
  have hterm₂ : s₂.tty.currTerminal = s.tty.currTerminal := hk.currTerminal
  have htable₂ : s₂.procTable = s.procTable.push s.tty.currTerminal i :=
    hk.procTable.trans (procTable_launched m fr s i name args mem)
  have hcur₃ : (s₂.resumed fa).cur = s.cur := by
    change (s₂.popped fa).cur = _
    rw [cur, popped_currentPcb, hparent, Option.getD_some]
  have hne : ∀ {j}, s.Live j → j ≠ i := fun hj hji => hj (hji ▸ hfree)
  have hlaunched : ∀ j, s.Live j → (s.launched m fr i name args mem).pcbs j = s.pcbs j :=
    fun j hj => Function.update_of_ne (hne hj) ..
  have hlive₁ : ∀ j, s.Live j → (s.launched m fr i name args mem).Live j := by
    intro j hj
    rwa [Live, hlaunched j hj]
  have hpcbs : ∀ j, s.Live j → (s₂.resumed fa).pcbs j = s.pcbs j := by
    intro j hj
    change (s₂.popped fa).pcbs j = _
    rw [popped_pcbs_of_ne s₂ fa (by rw [hcur₂]; exact hne hj),
      hk.pcbs_of_live j (hlive₁ j hj) (hne hj), hlaunched j hj]
  have hdirs : ∀ j, 1 ≤ j → s.Live j →
      (s₂.resumed fa).paging.pageDirectories (j - 1) = s.paging.pageDirectories (j - 1) := by
    intro j hj1 hj
    have hji := hne hj
    refine (hk.directories j hj1 (hlive₁ j hj) hji).trans ?_
    exact Paging.setDirectory_of_ne _ _ (by omega)
  have hcurPcb₃ : (s₂.resumed fa).curPcb = s.curPcb := by
    rw [curPcb, hcur₃, hpcbs s.cur hlive, curPcb]
  have hinst := h.installed hlive
  refine ⟨?_, hcur₃, hpcbs, hdirs, ?_, ?_, hterm₂⟩
  · change (s₂.popped fa).procTable = _
    rw [procTable_popped, htable₂, hterm₂, hcur₂,
      ProcTable.pop_push h.ready.stacked s.tty.currTerminal h6 hfree]
  · rw [hinst₃.cr3, hcurPcb₃, hinst.cr3]
  · rw [hinst₃.tssEsp0, hcurPcb₃, hinst.tssEsp0]

/-- The `halt` of a process restores the state in which its parent started it. -/
theorem halt_restores {s₁ s₂ : Kernel} {command : Option (List UInt8)} {entry : ℕ}
    (h : s.Sound σ) (hlive : s.Live s.cur)
    (hx : ExecuteResult m fr command s (.started entry) s₁)
    (h₂ : s₂.Sound (Function.update σ s.tty.currTerminal (s₁.cur :: σ s.tty.currTerminal)))
    (hk : s₁.Keeps s₂) (fr' : StackFrame) (status : UInt8) :
    ∃ s₃, s₂.halt m fr' status = .ok (.resumed fr.esp fr.ebp 0, s₃) ∧ s.Restored s₃ ∧
      s₃.Sound σ := by
  obtain ⟨l, hσ⟩ := h.ready.live_iff.mp hlive
  cases hx with
  | started hn i h1 h6 hfree name args mem =>
    change s₂.Sound (Function.update σ s.tty.currTerminal (i :: σ s.tty.currTerminal)) at h₂
    have hcur₂ : s₂.cur = i := hk.cur
    have hterm₂ : s₂.tty.currTerminal = s.tty.currTerminal := hk.currTerminal
    have hself : (s.launched m fr i name args mem).curPcb =
        { s.commandPcb i name args with esp := fr.esp, ebp := fr.ebp } := Function.update_self ..
    -- on its terminal the process lies directly above its parent
    have hσ₂ : (Function.update σ s.tty.currTerminal (i :: σ s.tty.currTerminal))
        s₂.tty.currTerminal = s₂.cur :: s.cur :: l := by
      rw [hterm₂, Function.update_self, hσ, hcur₂]
    have hlive₂ : s₂.Live s₂.cur := h₂.ready.live_iff.mpr ⟨_, hσ₂⟩
    obtain ⟨fa, hclose, -, hclean⟩ := closeAll_eq m (h₂.toWf.files_cur hlive₂)
    have hparent : s₂.curPcb.parentId = s.cur := h₂.ready.parentId_cur hσ₂
    have hres := h₂.toWf.resumed hσ₂ hclean
    have hσ₃ : Function.update (Function.update σ s.tty.currTerminal
        (i :: σ s.tty.currTerminal)) s₂.tty.currTerminal (s.cur :: l) = σ := by
      rw [hterm₂, Function.update_idem, ← hσ, Function.update_eq_self]
    rw [hσ₃] at hres
    refine ⟨s₂.resumed fa, ?_, restored_resumed h hlive h1 h6 hfree hk hparent hres.2, hres.1, rfl,
      fun _ => hres.2⟩
    rw [halt_eq h₂.ready hσ₂, if_neg (by simp), haltTail_parent h₂.ready hσ₂ hclose, hk.esp,
      hk.ebp, hself]

theorem Sound.started (h : s.Sound σ) {command : Option (List UInt8)} {entry : ℕ}
    (hx : ExecuteResult m fr command s (.started entry) s') :
    s'.Sound (Function.update σ s.tty.currTerminal (s'.cur :: σ s.tty.currTerminal)) ∧
      s'.Live s'.cur := by
  have hinst := hx.installed
  cases hx with
  | started hn i h1 h6 hfree name args mem =>
    exact ⟨⟨h.toWf.launched h1 h6 hfree name args mem, rfl, fun _ => hinst⟩, hinst.live⟩

/-- By induction on the activity; a nested program is bracketed by `halt_restores`. -/
theorem Activity.keeps (h : Activity m s s') : ∀ σ, s.Sound σ → s.Live s.cur →
    s.Keeps s' ∧ s'.Sound σ := by
  induction h with
  | done s => exact fun σ hs _ => ⟨.refl s, hs⟩
  | file hx _ ih =>
    intro σ hs hlive
    obtain ⟨fa, hstep, hfa⟩ := FileOp.apply_step (hs.toWf.files_cur hlive) hx
    have hs₁ := hs.fileStep hlive hfa hstep
    obtain ⟨hk, hs₂⟩ := ih σ hs₁ (hstep.keeps.live hs hs₁ hlive)
    exact ⟨hstep.keeps.trans hk, hs₂⟩
  | vidmap hx _ ih =>
    intro σ hs hlive
    have hs₁ := hs.vidmap hlive hx
    have hk₁ := hs.vidmap_keeps hlive hx
    obtain ⟨hk, hs₂⟩ := ih σ hs₁ (hk₁.live hs hs₁ hlive)
    exact ⟨hk₁.trans hk, hs₂⟩
  | interrupt hy _ ih =>
    intro σ hs hlive
    obtain ⟨hk, hs₂⟩ := ih σ (hs.interrupt hy) hlive
    exact ⟨(interrupt_keeps hy).trans hk, hs₂⟩
  | refused hx _ ih =>
    intro σ hs hlive
    have hres := execute_cases hs.ready hx
    have hs₁ := hs.returned hres
    have hk₁ := (hres.unchanged hs.toWf).1.keeps hlive
    obtain ⟨hk, hs₂⟩ := ih σ hs₁ (hk₁.live hs hs₁ hlive)
    exact ⟨hk₁.trans hk, hs₂⟩
  | program hx _ hh _ ihBody ihRest =>
    intro σ hs hlive
    have hres := execute_cases hs.ready hx
    obtain ⟨hs₁, hlive₁⟩ := hs.started hres
    obtain ⟨hk₁, hs₂⟩ := ihBody _ hs₁ hlive₁
    obtain ⟨s₃, hhalt, hrestored, hs₃⟩ := halt_restores hs hlive hres hs₂ hk₁ _ _
    rw [hhalt] at hh
    cases hh
    have hk₃ := hrestored.keeps hlive
    obtain ⟨hk, hs₄⟩ := ihRest σ hs₃ (hk₃.live hs hs₃ hlive)
    exact ⟨hk₃.trans hk, hs₄⟩

theorem Reachable.mono {ok ok' : Kernel → Step → Prop} (h : Reachable m ok s)
    (hok : ∀ s a, ok s a → ok' s a) : Reachable m ok' s := by
  induction h with
  | boot h₀ hx => exact .boot h₀ hx
  | step _ ha hx ih => exact .step ih (hok _ _ ha) hx

/-- The step is made by a live process, and a slot is free. -/
def Ordinary (s : Kernel) (a : Step) : Prop := s.ByLive a ∧ s.processNumber < 6

theorem Reachable.byLive (h : Reachable m Ordinary s) : Reachable m ByLive s :=
  h.mono fun _ _ ha => ha.1

/-- The first descriptor that is free in a new process. -/
theorem findFreeFd_launched (h : s.Wf σ) {i : ℕ} (h6 : i ≤ 6) (hfree : (s.pcbs i).programId = 0)
    (name args mem : ℕ → UInt8) : findFreeFd (s.launched m fr i name args mem).curPcb = some 2 := by
  have hcur : (s.launched m fr i name args mem).curPcb =
      { s.commandPcb i name args with esp := fr.esp, ebp := fr.ebp } := Function.update_self ..
  have hclean := (fdTable_initPcb ((h.pcb i h6).clean hfree) i s.tty.currTerminal).2
  rw [hcur]
  exact findFreeFd_eq_some.mpr ⟨⟨le_rfl, by decide⟩, (hclean 2 le_rfl (by decide)).1,
    fun j hj hj2 => absurd hj2 (Nat.not_lt_of_le hj)⟩

/-- The current process starts a shell, which opens its own file and halts. -/
structure Excursion (s s₁ s₂ s₃ : Kernel) : Prop where
  starts : ∃ entry, s.execute shellMachine blankFrame (some shellCommand) = .ok (.started entry, s₁)
  opens : s₁.sysOpen shellMachine (cString shellCommand) = (2, s₂)
  halts : s₂.halt shellMachine blankFrame 0 = .ok (.resumed 0 0 0, s₃)

variable {s₁ s₂ s₃ : Kernel}

theorem Activity.open {fname : ℕ → UInt8} {r : ℤ} (hx : s₁.sysOpen m fname = (r, s₂)) :
    Activity m s₁ s₂ := by
  have hcall : FileOp.apply m s₁ (.open fname) = .ok (r, s₂) := congrArg Except.ok hx
  exact .file hcall (.done s₂)

theorem Excursion.body (h : Excursion s s₁ s₂ s₃) : Activity shellMachine s₁ s₂ := .open h.opens

theorem Excursion.activity (h : Excursion s s₁ s₂ s₃) : Activity shellMachine s s₃ := by
  obtain ⟨entry, hx⟩ := h.starts
  exact .program hx h.body h.halts (.done s₃)

theorem excursion (h : s.Sound σ) (hlive : s.Live s.cur) (hn : s.processNumber < 6) :
    ∃ s₁ s₂ s₃, Excursion s s₁ s₂ s₃ := by
  obtain ⟨entry, s₁, hx⟩ := execute_shell (m := shellMachine) blankFrame shellImage_hasShell
    h.ready hn
  have hres := execute_cases h.ready hx
  have hopens : ∃ s₂, s₁.sysOpen shellMachine (cString shellCommand) = (2, s₂) := by
    cases hres with
    | started _ i h1 h6 hfree name args mem =>
      exact ⟨_, openFile_eq _ _ readDentryByName_shellImage
        (findFreeFd_launched h.toWf h6 hfree name args mem) le_rfl⟩
  obtain ⟨s₂, hopen⟩ := hopens
  obtain ⟨hs₁, hlive₁⟩ := h.started hres
  have hbody : Activity shellMachine s₁ s₂ := .open hopen
  obtain ⟨hk, hs₂⟩ := hbody.keeps _ hs₁ hlive₁
  obtain ⟨s₃, hhalt, -⟩ := halt_restores h hlive hres hs₂ hk blankFrame 0
  exact ⟨s₁, s₂, s₃, ⟨entry, hx⟩, hopen, hhalt⟩

/-- All of it is a run. -/
theorem Excursion.reachable (h : Excursion s s₁ s₂ s₃) (hs : Reachable shellMachine Ordinary s)
    (hn : s.processNumber < 5) : Reachable shellMachine Ordinary s₃ := by
  obtain ⟨σ, hsound⟩ := hs.byLive.sound
  obtain ⟨entry, hx⟩ := h.starts
  have hres := execute_cases hsound.ready hx
  obtain ⟨hs₁, hlive₁⟩ := hsound.started hres
  obtain ⟨hk, hs₂⟩ := h.body.keeps _ hs₁ hlive₁
  have hn₁ : s₁.processNumber = s.processNumber + 1 := by
    cases hres with
    | started _ i h1 h6 hfree name args mem => exact inc32_of_lt (by omega)
  have hn₂ : s₂.processNumber = s₁.processNumber := congrArg ProcTable.processNumber hk.procTable
  have hstart : Reachable shellMachine Ordinary s₁ :=
    .step hs (a := .execute blankFrame (some shellCommand)) ⟨trivial, by omega⟩
      (bind_eq_ok.mpr ⟨_, hx, rfl⟩)
  have hopen : Reachable shellMachine Ordinary s₂ :=
    .step hstart (a := .file (.open (cString shellCommand))) ⟨hlive₁, by omega⟩
      (congrArg Except.ok (congrArg Prod.snd h.opens))
  exact .step hopen (a := .halt blankFrame 0) ⟨hk.live hs₁ hs₂ hlive₁, by omega⟩
    (bind_eq_ok.mpr ⟨_, h.halts, rfl⟩)

end KudOS.Kernel
