import KudOS.HaltCases

/-!
# Runs of the kernel

A run starts when `entry` has started the first shell and goes on by system calls of
the current process, terminal switches and interrupts. `Kernel.Sound` is what holds in
every state of a run whose system calls are made by live processes.
-/

namespace KudOS

/-- The tables before `paging_init`. -/
def Paging.zero : Paging := ⟨fun _ => 0, fun _ => 0, fun _ _ => 0, 0⟩

namespace Kernel

/-- The state in which `entry` calls `execute`. What it did to the terminals, the clock
and the memory does not matter. -/
structure BootState (m : Machine) (s : Kernel) : Prop where
  pcbs : s.pcbs = fun _ => Pcb.zero
  processNumber : s.processNumber = 0
  currentPcb : s.currentPcb = none
  terminalInfo : s.terminalInfo = fun _ => ⟨0, 0⟩
  paging : Paging.zero.pagingInit m = .ok s.paging
  tssEsp0 : s.tssEsp0 = 0x800000

/-- One step of a run. An interrupt leaves some new state of the terminals. -/
inductive Step where
  | execute (fr : StackFrame) (command : Option (List UInt8))
  | halt (fr : StackFrame) (status : UInt8)
  | switchTerminal (fr : StackFrame) (t : TerminalId)
  | vidmap (screenStart : ℕ)
  | file (op : FileOp)
  | interrupt (y : Tty)

def step (m : Machine) (s : Kernel) : Step → Except Stop Kernel
  | .execute fr command => do return (← s.execute m fr command).2
  | .halt fr status => do return (← s.halt m fr status).2
  | .switchTerminal fr t => s.switchTerminal m fr t
  | .vidmap screenStart => do return (← s.vidmap m screenStart).2
  | .file op => do return (← op.apply m s).2
  | .interrupt y => .ok { s with tty := y }

/-- The states of the runs whose steps are all admitted by `ok`. -/
inductive Reachable (m : Machine) (ok : Kernel → Step → Prop) : Kernel → Prop where
  | boot {s₀ s : Kernel} {fr : StackFrame} {entry : ℕ} (h₀ : BootState m s₀)
      (hx : s₀.execute m fr (some shellCommand) = .ok (.started entry, s)) : Reachable m ok s
  | step {s s' : Kernel} {a : Step} (h : Reachable m ok s) (ha : ok s a)
      (hx : s.step m a = .ok s') : Reachable m ok s'

/-- System calls other than `execute` are made by a live current process, and only
`switch_terminal` changes the active terminal. -/
def ByLive (s : Kernel) : Step → Prop
  | .execute _ _ | .switchTerminal _ _ => True
  | .halt _ _ | .vidmap _ | .file _ => s.Live s.cur
  | .interrupt y => y.currTerminal = s.tty.currTerminal

/-! ## The invariant -/

/-- What the PCB in slot `i` holds besides its numbers. -/
structure PcbOk (i : ℕ) (p : Pcb) : Prop where
  files : p.programId ≠ 0 → FdTable p.fileArray
  clean : p.programId = 0 → FdClean p.fileArray
  address : p.programId ≠ 0 → p.address = getKernelStackPtr i

structure Wf (s : Kernel) (σ : TerminalId → List ℕ) : Prop where
  ready : s.Ready σ
  pcb : ∀ i ≤ 6, PcbOk i (s.pcbs i)

/-- The current process is live, its directory is loaded and its kernel stack is set. -/
structure Installed (s : Kernel) : Prop where
  live : s.Live s.cur
  cr3 : s.paging.cr3 = s.curPcb.programId - 1
  tssEsp0 : s.tssEsp0 = s.curPcb.address

structure Sound (s : Kernel) (σ : TerminalId → List ℕ) : Prop extends Wf s σ where
  current : s.currentPcb = some s.cur
  installed : s.Live s.cur → s.Installed

variable {m : Machine} {fr : StackFrame} {s s' : Kernel} {σ : TerminalId → List ℕ}

theorem Wf.cur_le (h : s.Wf σ) : s.cur ≤ 6 := by
  rw [h.ready.cur_eq_top]
  exact h.ready.stacked.top_le s.tty.currTerminal

theorem Wf.programId_cur (h : s.Wf σ) : s.curPcb.programId = s.cur := by
  rw [curPcb, h.ready.cur_eq_top, h.ready.programId_top]

theorem Wf.files_cur (h : s.Wf σ) (hlive : s.Live s.cur) : FdTable s.files :=
  (h.pcb s.cur h.cur_le).files hlive

theorem pcbOk_update {pcbs : ℕ → Pcb} (h : ∀ j ≤ 6, PcbOk j (pcbs j)) {i : ℕ} {p : Pcb}
    (hp : PcbOk i p) : ∀ j ≤ 6, PcbOk j (Function.update pcbs i p j) := by
  intro j hj
  by_cases hji : j = i
  · subst hji
    rw [Function.update_self]
    exact hp
  · rw [Function.update_of_ne hji]
    exact h j hj

/-! ## execute -/

/-- The new PCB has the two terminal descriptors and nothing else. -/
theorem fdTable_initPcb {p : Pcb} (h : FdClean p.fileArray) (i : ℕ) (t : TerminalId) :
    FdTable (initPcb p i t).fileArray ∧ FdClean (initPcb p i t).fileArray := by
  have hclean : FdClean (initPcb p i t).fileArray := by
    intro fd h2 h7
    have h0 : fd ≠ 0 := by omega
    have h1 : fd ≠ 1 := by omega
    simpa [initPcb, h0, h1] using h fd h2 h7
  exact ⟨⟨⟨rfl, rfl⟩, ⟨rfl, rfl⟩, fun fd h2 h7 => Or.inl (hclean fd h2 h7)⟩, hclean⟩

theorem Wf.launched (h : s.Wf σ) {i : ℕ} (h1 : 1 ≤ i) (h6 : i ≤ 6)
    (hfree : (s.pcbs i).programId = 0) (name args mem : ℕ → UInt8) :
    (s.launched m fr i name args mem).Wf
      (Function.update σ s.tty.currTerminal (i :: σ s.tty.currTerminal)) := by
  have hinit := fdTable_initPcb ((h.pcb i h6).clean hfree) i s.tty.currTerminal
  refine ⟨h.ready.launched h1 h6 hfree m fr name args mem, pcbOk_update h.pcb ⟨?_, ?_, ?_⟩⟩
  · exact fun _ => hinit.1
  · exact fun _ => hinit.2
  · exact fun _ => rfl

theorem Wf.withdrawn (h : s.Wf σ) {i : ℕ} (h6 : i ≤ 6) (hfree : (s.pcbs i).programId = 0)
    {y : Tty} (hy : y.currTerminal = s.tty.currTerminal) (name args : ℕ → UInt8) :
    (s.withdrawn i y (s.commandPcb i name args)).Wf σ := by
  have hinit := fdTable_initPcb ((h.pcb i h6).clean hfree) i s.tty.currTerminal
  refine ⟨h.ready.withdrawn h6 hfree y hy _, pcbOk_update h.pcb ⟨?_, ?_, ?_⟩⟩
  · exact fun hl => absurd rfl hl
  · exact fun _ => hinit.2
  · exact fun hl => absurd rfl hl

theorem installed_launched {i : ℕ} (h1 : 1 ≤ i) (name args mem : ℕ → UInt8) :
    (s.launched m fr i name args mem).Installed := by
  have hpcb : (s.launched m fr i name args mem).curPcb =
      { s.commandPcb i name args with esp := fr.esp, ebp := fr.ebp } := Function.update_self ..
  refine ⟨?_, ?_, ?_⟩
  · change (s.launched m fr i name args mem).curPcb.programId ≠ 0
    rw [hpcb]
    exact Nat.ne_of_gt h1
  · rw [hpcb]
    rfl
  · rw [hpcb]
    rfl

/-- The processes, the current one and its installation are the same in both states. -/
structure Restored (s s' : Kernel) : Prop where
  procTable : s'.procTable = s.procTable
  cur : s'.cur = s.cur
  pcbs_of_live : ∀ i, s.Live i → s'.pcbs i = s.pcbs i
  directories : ∀ i, 1 ≤ i → s.Live i →
    s'.paging.pageDirectories (i - 1) = s.paging.pageDirectories (i - 1)
  cr3 : s'.paging.cr3 = s.paging.cr3
  tssEsp0 : s'.tssEsp0 = s.tssEsp0
  currTerminal : s'.tty.currTerminal = s.tty.currTerminal

theorem ExecuteResult.unchanged {command : Option (List UInt8)} {v : ℤ} (h : s.Wf σ)
    (hx : ExecuteResult m fr command s (.returned v) s') :
    s.Restored s' ∧ s'.paging = s.paging ∧ s'.Wf σ := by
  cases hx with
  | limit hn y hy =>
    have hterm : y.currTerminal = s.tty.currTerminal := by rw [hy, Tty.printText_currTerminal]
    exact ⟨⟨rfl, rfl, fun _ _ => rfl, fun _ _ _ => rfl, rfl, rfl, hterm⟩, rfl,
      h.ready.withTty y hterm, h.pcb⟩
  | failed hn i h1 h6 hfree name args y hy =>
    have hterm : y.currTerminal = s.tty.currTerminal := by rw [hy, rejectTty_currTerminal]
    refine ⟨⟨procTable_withdrawn h.ready.stacked h6 hfree y _, h.ready.cur_eq_top.symm,
      fun j hj => ?_, fun _ _ _ => rfl, rfl, rfl, hterm⟩, rfl,
      h.withdrawn h6 hfree hterm name args⟩
    have hji : j ≠ i := fun hji => hj (hji ▸ hfree)
    exact Function.update_of_ne hji ..

theorem Installed.of_frame (h : s.Installed) (hcur : s'.cur = s.cur)
    (hpcb : s'.pcbs s.cur = s.pcbs s.cur) (hcr3 : s'.paging.cr3 = s.paging.cr3)
    (htss : s'.tssEsp0 = s.tssEsp0) : s'.Installed := by
  have hcurPcb : s'.curPcb = s.curPcb := by rw [curPcb, hcur, hpcb, curPcb]
  refine ⟨?_, ?_, ?_⟩
  · rw [Live, hcur, hpcb]
    exact h.live
  · rw [hcr3, hcurPcb]
    exact h.cr3
  · rw [htss, hcurPcb]
    exact h.tssEsp0

theorem Wf.execute (h : s.Wf σ) {command : Option (List UInt8)} {o : ExecOutcome}
    (hx : ExecuteResult m fr command s o s') : ∃ σ', s'.Wf σ' := by
  cases o with
  | returned v => exact ⟨σ, (hx.unchanged h).2.2⟩
  | started entry =>
    cases hx with
    | started hn i h1 h6 hfree name args mem => exact ⟨_, h.launched h1 h6 hfree name args mem⟩

theorem ExecuteResult.current {command : Option (List UInt8)} {o : ExecOutcome}
    (hx : ExecuteResult m fr command s o s') (h : s.currentPcb = some s.cur) :
    s'.currentPcb = some s'.cur := by
  cases hx with
  | limit hn y hy => exact h
  | failed hn i h1 h6 hfree name args y hy => rfl
  | started hn i h1 h6 hfree name args mem => rfl

theorem ExecuteResult.current_started {command : Option (List UInt8)} {entry : ℕ}
    (hx : ExecuteResult m fr command s (.started entry) s') : s'.currentPcb = some s'.cur := by
  cases hx with
  | started hn i h1 h6 hfree name args mem => rfl

theorem ExecuteResult.installed {command : Option (List UInt8)} {entry : ℕ}
    (hx : ExecuteResult m fr command s (.started entry) s') : s'.Installed := by
  cases hx with
  | started hn i h1 h6 hfree name args mem => exact installed_launched h1 name args mem

theorem Restored.installed (h : s.Restored s') (hi : s.Installed) : s'.Installed :=
  hi.of_frame h.cur (h.pcbs_of_live s.cur hi.live) h.cr3 h.tssEsp0

theorem Sound.returned (h : s.Sound σ) {command : Option (List UInt8)} {v : ℤ}
    (hx : ExecuteResult m fr command s (.returned v) s') : s'.Sound σ := by
  obtain ⟨hsame, -, hwf⟩ := hx.unchanged h.toWf
  refine ⟨hwf, hx.current h.current, fun hl => hsame.installed (h.installed ?_)⟩
  rw [h.ready.live_iff, ← hsame.cur, ← hsame.currTerminal]
  exact hwf.ready.live_iff.mp hl

/-! ## halt and switch_terminal -/

theorem Wf.popped (h : s.Wf σ) {l : List ℕ} (hσ : σ s.tty.currTerminal = s.cur :: l)
    {fa : ℕ → FsDescriptor} (hfa : FdClean fa) :
    (s.popped fa).Wf (Function.update σ s.tty.currTerminal l) := by
  refine ⟨h.ready.popped hσ fa, fun i hi => ?_⟩
  by_cases hcur : i = s.cur
  · rw [hcur, popped_pcbs_self]
    exact ⟨fun hl => absurd rfl hl, fun _ => hfa, fun hl => absurd rfl hl⟩
  · rw [popped_pcbs_of_ne s fa hcur]
    exact h.pcb i hi

theorem Wf.resumed (h : s.Wf σ) {j : ℕ} {l : List ℕ}
    (hσ : σ s.tty.currTerminal = s.cur :: j :: l) {fa : ℕ → FsDescriptor} (hfa : FdClean fa) :
    (s.resumed fa).Wf (Function.update σ s.tty.currTerminal (j :: l)) ∧
      (s.resumed fa).Installed := by
  have hpop := h.popped hσ hfa
  have hwf : (s.resumed fa).Wf (Function.update σ s.tty.currTerminal (j :: l)) :=
    ⟨⟨hpop.ready.stacked, hpop.ready.current⟩, hpop.pcb⟩
  have hj := h.ready.stacked.slot_of_mem s.tty.currTerminal j (by simp [hσ])
  have hid : (s.resumed fa).curPcb.programId = j := by
    have hcur : (s.resumed fa).cur = j := by
      change (s.popped fa).cur = j
      rw [cur, popped_currentPcb, h.ready.parentId_cur hσ, Option.getD_some]
    rw [hwf.programId_cur, hcur]
  refine ⟨hwf, ?_, ?_, rfl⟩
  · change (s.resumed fa).curPcb.programId ≠ 0
    omega
  · rw [hid, Kernel.resumed, h.ready.parentId_cur hσ]

theorem Wf.halt (h : s.Wf σ) {o : HaltOutcome} (hx : HaltResult m fr s σ o s') :
    (∃ σ', s'.Sound σ') ∧ s'.Installed := by
  cases hx with
  | resumed j l hσ fa hfa =>
    have hres := h.resumed hσ hfa
    exact ⟨⟨_, hres.1, rfl, fun _ => hres.2⟩, hres.2⟩
  | restarted hσ fa hfa entry _ hexec =>
    obtain ⟨σ', hwf⟩ := (h.popped hσ hfa).execute hexec
    exact ⟨⟨σ', hwf, hexec.current rfl, fun _ => hexec.installed⟩, hexec.installed⟩

theorem Wf.shown (h : s.Wf σ) (t : TerminalId) : (s.shown t).Wf σ := ⟨h.ready.shown t, h.pcb⟩

theorem Wf.switched (h : s.Wf σ) {t : TerminalId} {j : ℕ} {l : List ℕ} (hσ : σ t = j :: l) :
    (s.switched t j).Wf σ ∧ (s.switched t j).Installed := by
  have hshown := h.shown t
  have hwf : (s.switched t j).Wf σ :=
    ⟨⟨hshown.ready.stacked, hshown.ready.current⟩, hshown.pcb⟩
  have hj := h.ready.stacked.slot_of_mem t j (by simp [hσ])
  have hcur : (s.switched t j).cur = j := by
    have htop := h.ready.stacked.top_eq t
    rw [hσ, List.headD_cons] at htop
    exact htop
  have hid := hwf.programId_cur
  rw [hcur] at hid
  refine ⟨hwf, ?_, ?_, ?_⟩
  · change (s.switched t j).curPcb.programId ≠ 0
    omega
  · rw [hid]
    rfl
  · rw [curPcb, hcur]
    rfl

/-- Without a current process there is none after a call of `execute` that returned. -/
theorem Sound.switch (h : s.Sound σ) {t : TerminalId} (hx : SwitchResult m fr s σ t s') :
    ∃ σ', s'.Sound σ' := by
  cases hx with
  | same ht => exact ⟨σ, h⟩
  | live ht j l hσ =>
    have hsw := h.toWf.switched hσ
    exact ⟨σ, hsw.1, rfl, fun _ => hsw.2⟩
  | empty ht hσ o _ hexec =>
    cases o with
    | started entry =>
      obtain ⟨σ', hwf⟩ := (h.toWf.shown t).execute hexec
      exact ⟨σ', hwf, hexec.current rfl, fun _ => hexec.installed⟩
    | returned v =>
      obtain ⟨hsame, -, hwf⟩ := hexec.unchanged (h.toWf.shown t)
      refine ⟨σ, hwf, hexec.current rfl, fun hl => ?_⟩
      -- the terminal is still empty, so no process is current
      obtain ⟨l, hl⟩ := hwf.ready.live_iff.mp hl
      rw [hsame.currTerminal, shown_currTerminal, hσ] at hl
      cases hl

/-! ## Files, vidmap and interrupts -/

theorem Sound.fileStep (h : s.Sound σ) (hlive : s.Live s.cur) {fa : ℕ → FsDescriptor}
    (hfa : FdTable fa) (hstep : FileStep s fa s') : s'.Sound σ := by
  cases hstep with
  | intro y hy d r =>
    have hready : Ready { s.withFiles fa with tty := y, dentry := d, rtc := r } σ := by
      refine ⟨?_, ?_⟩
      · change Stacked (s.withFiles fa).procTable σ
        rw [procTable_withFiles]
        exact h.ready.stacked
      · have hcurrent := h.ready.current
        rw [top] at hcurrent ⊢
        dsimp only
        rwa [hy]
    have hok := h.pcb s.cur h.toWf.cur_le
    have hnew : PcbOk s.cur { s.curPcb with fileArray := fa } :=
      ⟨fun _ => hfa, fun h0 => absurd h0 hlive, hok.address⟩
    have hcurPcb : (s.withFiles fa).curPcb = { s.curPcb with fileArray := fa } :=
      withFiles_curPcb s fa
    have hinst := h.installed hlive
    refine ⟨⟨hready, pcbOk_update h.pcb hnew⟩, h.current, fun _ => ⟨?_, ?_, ?_⟩⟩
    · change (s.withFiles fa).curPcb.programId ≠ 0
      rw [hcurPcb]
      exact hlive
    · change s.paging.cr3 = (s.withFiles fa).curPcb.programId - 1
      rw [hcurPcb]
      exact hinst.cr3
    · change s.tssEsp0 = (s.withFiles fa).curPcb.address
      rw [hcurPcb]
      exact hinst.tssEsp0

theorem vidmap_cases {v : ℕ} {r : ℤ} (hx : s.vidmap m v = .ok (r, s')) :
    s' = s ∨ ∃ p mem, s.paging.createVidmap m (dec32 s.curPcb.programId) = .ok p ∧
      s' = { s with paging := p, phys := mem } := by
  unfold vidmap at hx
  split at hx
  · cases hx
    exact Or.inl rfl
  split at hx
  · cases hx
    exact Or.inl rfl
  · obtain ⟨p, hp, hx⟩ := bind_eq_ok.mp hx
    obtain ⟨u, hu, hpure⟩ := bind_eq_ok.mp hx
    cases hpure
    obtain ⟨mem, rfl⟩ := storeUser_cases hu
    exact Or.inr ⟨p, mem, hp, rfl⟩

theorem Sound.withPaging (h : s.Sound σ) (p : Paging) (hp : p.cr3 = s.paging.cr3)
    (mem : ℕ → UInt8) : Sound { s with paging := p, phys := mem } σ := by
  refine ⟨⟨⟨h.ready.stacked, h.ready.current⟩, h.pcb⟩, h.current, fun hl => ?_⟩
  exact (h.installed hl).of_frame rfl rfl hp rfl

/-- Of the directories only that of the current process changes. -/
theorem Sound.vidmap_paging (h : s.Sound σ) (hlive : s.Live s.cur) {v : ℕ} {r : ℤ}
    (hx : s.vidmap m v = .ok (r, s')) : ∃ p mem, p.cr3 = s.paging.cr3 ∧
      (∀ d, d ≠ s.cur - 1 → p.pageDirectories d = s.paging.pageDirectories d) ∧
      s' = { s with paging := p, phys := mem } := by
  rcases vidmap_cases hx with rfl | ⟨p, mem, hp, rfl⟩
  · exact ⟨s'.paging, s'.phys, rfl, fun _ _ => rfl, rfl⟩
  · have hle := h.toWf.cur_le
    have hid := h.toWf.programId_cur
    have hpos : 0 < s.cur := by
      rw [← hid]
      exact Nat.pos_of_ne_zero hlive
    rw [hid, dec32_of_pos hpos (by omega),
      Paging.createVidmap_eq m _ (by rw [maxTasks]; omega)] at hp
    cases hp
    refine ⟨_, mem, ?_, fun d hd => ?_, rfl⟩
    · rfl
    · exact Paging.setDirectory_of_ne _ _ hd

theorem Sound.vidmap (h : s.Sound σ) (hlive : s.Live s.cur) {v : ℕ} {r : ℤ}
    (hx : s.vidmap m v = .ok (r, s')) : s'.Sound σ := by
  obtain ⟨p, mem, hcr3, -, rfl⟩ := h.vidmap_paging hlive hx
  exact h.withPaging p hcr3 mem

theorem Sound.interrupt (h : s.Sound σ) {y : Tty} (hy : y.currTerminal = s.tty.currTerminal) :
    Sound { s with tty := y } σ :=
  ⟨⟨h.ready.withTty y hy, h.pcb⟩, h.current, fun hl => (h.installed hl).of_frame rfl rfl rfl rfl⟩

/-! ## Whole runs -/

theorem BootState.wf (h : BootState m s) : s.Wf fun _ => [] := by
  have htable : s.procTable = ⟨fun _ => 0, fun _ => 0, fun _ => ⟨0, 0⟩, 0⟩ := by
    rw [procTable, h.pcbs, h.terminalInfo, h.processNumber]
    rfl
  have htop : s.top = 0 := by rw [top, h.terminalInfo]
  refine ⟨⟨?_, Or.inr ⟨h.currentPcb, htop⟩⟩, fun i _ => ?_⟩
  · rw [htable]
    exact {
      slot_of_mem := fun t i hi => absurd hi List.not_mem_nil
      free_of_not_mem := fun i _ _ => ⟨rfl, rfl⟩
      visits := fun t => Visits.done
      length_eq := fun t => rfl
      nodup := fun t => List.nodup_nil
      disjoint := fun t u i hi => absurd hi List.not_mem_nil
      count := rfl }
  · rw [h.pcbs]
    exact ⟨fun hl => absurd rfl hl, fun _ fd _ _ => ⟨rfl, rfl⟩, fun hl => absurd rfl hl⟩

theorem Sound.step (h : s.Sound σ) {a : Step} (ha : s.ByLive a) (hx : s.step m a = .ok s') :
    ∃ σ', s'.Sound σ' := by
  cases a with
  | execute fr command =>
    obtain ⟨⟨o, u⟩, hexec, hpure⟩ := bind_eq_ok.mp hx
    cases hpure
    have hres := execute_cases h.ready hexec
    cases o with
    | started entry =>
      obtain ⟨σ', hwf⟩ := h.toWf.execute hres
      exact ⟨σ', hwf, hres.current h.current, fun _ => hres.installed⟩
    | returned v => exact ⟨σ, h.returned hres⟩
  | halt fr status =>
    obtain ⟨⟨o, u⟩, hhalt, hpure⟩ := bind_eq_ok.mp hx
    cases hpure
    exact (h.toWf.halt (halt_cases h.ready ha (h.toWf.files_cur ha) hhalt)).1
  | switchTerminal fr t => exact h.switch (switchTerminal_cases h.ready hx)
  | vidmap v =>
    obtain ⟨⟨r, u⟩, hvid, hpure⟩ := bind_eq_ok.mp hx
    cases hpure
    exact ⟨σ, h.vidmap ha hvid⟩
  | file op =>
    obtain ⟨⟨r, u⟩, hop, hpure⟩ := bind_eq_ok.mp hx
    cases hpure
    obtain ⟨fa, hstep, hfa⟩ := op.apply_step (h.toWf.files_cur ha) hop
    exact ⟨σ, h.fileStep ha hfa hstep⟩
  | interrupt y =>
    cases hx
    exact ⟨σ, h.interrupt ha⟩

theorem Reachable.sound (h : Reachable m ByLive s) : ∃ σ, s.Sound σ := by
  induction h with
  | boot h₀ hx =>
    have hres := execute_cases h₀.wf.ready hx
    obtain ⟨σ, hwf⟩ := h₀.wf.execute hres
    exact ⟨σ, hwf, hres.current_started, fun _ => hres.installed⟩
  | step _ ha hx ih =>
    obtain ⟨σ, hs⟩ := ih
    exact hs.step ha hx

end Kernel
end KudOS
