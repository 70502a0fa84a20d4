import KudOS.ProcessNesting

/-!
# The process table and the current process

The five counters and links of the process table (`process_number`, `program_id`,
`parent_id`, `num_process`, `top_process_id`) describe the same processes in every
state of every run. The current process may get lost: `switch_terminal` commits to the
new terminal before it knows whether a shell can be started there. With a full process
table it leaves `current_pcb` at `&pcbs[0]`, with the directory and the kernel stack of
the old terminal.
-/

namespace KudOS.Kernel

variable {m : Machine} {fr : StackFrame} {s s' : Kernel} {σ : TerminalId → List ℕ}

/-! ## The process table -/

/-- The process table agrees with itself. -/
structure TableConsistent (s : Kernel) : Prop where
  count : s.processNumber = ((Finset.Icc 1 6).filter fun i => (s.pcbs i).programId ≠ 0).card
  count_le : s.processNumber ≤ 6
  programId : ∀ i, 1 ≤ i → i ≤ 6 → (s.pcbs i).programId = 0 ∨ (s.pcbs i).programId = i
  current : s.currentPcb = some s.curPcb.programId
  /-- `read` goes through `current_pcb`, `write` through `pcbs[current_pcb->program_id]`. -/
  same_files : (s.pcbs s.curPcb.programId).fileArray = s.curPcb.fileArray
  /-- Behind the limit test of `execute` there is a slot, and `pcb_init` numbers it. -/
  free_slot : ¬ inc32 s.processNumber ≥ maxProcesses →
    1 ≤ findFreePcb s.pcbs ∧ findFreePcb s.pcbs ≤ 6 ∧ ¬ s.Live (findFreePcb s.pcbs) ∧
      ((s.pcbInit (findFreePcb s.pcbs)).pcbs (findFreePcb s.pcbs)).programId = findFreePcb s.pcbs
  /-- The parent links from the top of a terminal visit `num_process` live processes;
  every live process is visited from exactly one terminal. -/
  chains : ∃ chain : TerminalId → List ℕ,
    (∀ t, Visits 0 (fun i => (s.pcbs i).parentId) (s.terminalInfo t).topProcessId (chain t) ∧
      (chain t).length = (s.terminalInfo t).numProcess ∧ (chain t).Nodup ∧
      ∀ i ∈ chain t, (1 ≤ i ∧ i ≤ 6) ∧ s.Live i) ∧
    ∀ i, 1 ≤ i → i ≤ 6 → s.Live i → ∃! t, i ∈ chain t

theorem Sound.tableConsistent {s : Kernel} {σ : TerminalId → List ℕ} (h : s.Sound σ) :
    s.TableConsistent := by
  have hst := h.ready.stacked
  have hle : s.processNumber ≤ 6 := hst.processNumber_le
  have hid := h.toWf.programId_cur
  refine ⟨hst.count, hle, fun i _ hi => hst.programId_zero_or hi, ?_, ?_, ?_, σ, ?_, ?_⟩
  · rw [hid]
    exact h.current
  · rw [hid, curPcb]
  · intro hlimit
    rw [inc32_of_lt (by omega), maxProcesses] at hlimit
    obtain ⟨h1, h6, hfree⟩ := findFreePcb_spec s.pcbs (hst.exists_free (by
      change s.processNumber < 6
      omega))
    refine ⟨h1, h6, not_not_intro hfree, ?_⟩
    simp [pcbInit, setPcb, initPcb]
  · intro t
    refine ⟨hst.visits t, (hst.length_eq t).symm, hst.nodup t, fun i hi => ?_⟩
    have hslot := hst.slot_of_mem t i hi
    have hpid : (s.pcbs i).programId = i := hslot.2.2
    refine ⟨⟨hslot.1, hslot.2.1⟩, ?_⟩
    rw [Live, hpid]
    omega
  · intro i h1 h6 hlive
    obtain ⟨t, ht⟩ := hst.mem_of_programId h6 hlive
    exact ⟨t, ht, fun u hu => hst.disjoint u t i hu ht⟩

/-- In every run in which only live processes make system calls, the process table is
consistent in every state. -/
theorem reachable_tableConsistent {m : Machine} {s : Kernel} (h : Reachable m ByLive s) :
    s.TableConsistent := by
  obtain ⟨σ, hs⟩ := h.sound
  exact hs.tableConsistent

/-! ## The current process -/

/-- There is a current process, and it is the one that is installed. -/
structure Coherent (s : Kernel) : Prop where
  live : s.curPcb.programId ≠ 0
  cr3 : s.paging.cr3 = s.curPcb.programId - 1
  tssEsp0 : s.tssEsp0 = s.curPcb.address
  numProcess : 1 ≤ (s.terminalInfo s.tty.currTerminal).numProcess

/-- A switch to a terminal without a process finds a free slot for the shell. -/
def SwitchHasRoom (s : Kernel) : Step → Prop
  | .switchTerminal _ t =>
    t ≠ s.tty.currTerminal → (s.terminalInfo t).numProcess = 0 → s.processNumber < 6
  | .interrupt y => y.currTerminal = s.tty.currTerminal
  | _ => True

/-- The steps `execute`, `halt` and `switch_terminal`. -/
def Step.IsControl : Step → Prop
  | .execute _ _ | .halt _ _ | .switchTerminal _ _ => True
  | _ => False

theorem Sound.coherent (h : s.Sound σ) (hlive : s.Live s.cur) : s.Coherent := by
  have hinst := h.installed hlive
  refine ⟨hlive, hinst.cr3, hinst.tssEsp0, ?_⟩
  obtain ⟨l, hσ⟩ := h.ready.live_iff.mp hlive
  have hlen : (s.terminalInfo s.tty.currTerminal).numProcess = (σ s.tty.currTerminal).length :=
    h.ready.stacked.length_eq s.tty.currTerminal
  rw [hlen, hσ, List.length_cons]
  omega

theorem Ready.empty_iff (h : s.Ready σ) (t : TerminalId) :
    (s.terminalInfo t).numProcess = 0 ↔ σ t = [] := by
  have hlen : (s.terminalInfo t).numProcess = (σ t).length := h.stacked.length_eq t
  rw [hlen, List.length_eq_zero_iff]

/-- A switch keeps a current process exactly if it finds one or has room for one. -/
theorem switch_live_iff (himg : m.image.HasShell) (h : s.Sound σ) (hlive : s.Live s.cur)
    {t : TerminalId} (hx : s.switchTerminal m fr t = .ok s') :
    s'.Live s'.cur ↔ s.SwitchHasRoom (.switchTerminal fr t) := by
  cases switchTerminal_cases h.ready hx with
  | same ht => exact ⟨fun _ hne => absurd ht hne, fun _ => hlive⟩
  | live ht j l hσ =>
    refine ⟨fun _ _ hnum => ?_, fun _ => (h.toWf.switched hσ).2.live⟩
    rw [h.ready.empty_iff, hσ] at hnum
    cases hnum
  | empty ht hσ o _ hexec =>
    have hready := h.ready.shown t
    by_cases hn : s.processNumber < 6
    · refine ⟨fun _ _ _ => hn, fun _ => ?_⟩
      obtain ⟨entry, u, hu⟩ := execute_shell fr himg hready hn
      rw [switchTerminal_of_ne ht, h.ready.shown_programId, hσ, List.headD_nil, if_pos rfl, hu,
        ok_bind] at hx
      cases hx
      exact (execute_cases hready hu).installed.live
    · refine ⟨fun hl => ?_, fun hroom => absurd (hroom ht ((h.ready.empty_iff t).mpr hσ)) hn⟩
      cases o with
      | started entry =>
        cases hexec with
        | started hn' => exact absurd hn' hn
      | returned v =>
        obtain ⟨hsame, -, hwf⟩ := hexec.unchanged (h.toWf.shown t)
        obtain ⟨l, hl⟩ := hwf.ready.live_iff.mp hl
        rw [hsame.currTerminal, shown_currTerminal, hσ] at hl
        cases hl

theorem live_step (himg : m.image.HasShell) (h : s.Sound σ) (hlive : s.Live s.cur) {a : Step}
    (ha : s.SwitchHasRoom a) (hx : s.step m a = .ok s') : ∃ σ', s'.Sound σ' ∧ s'.Live s'.cur := by
  cases a with
  | execute fr command =>
    obtain ⟨⟨o, u⟩, hexec, hpure⟩ := bind_eq_ok.mp hx
    cases hpure
    have hres := execute_cases h.ready hexec
    cases o with
    | started entry => exact ⟨_, h.started hres⟩
    | returned v =>
      have hs' := h.returned hres
      exact ⟨σ, hs', ((hres.unchanged h.toWf).1.keeps hlive).live h hs' hlive⟩
  | halt fr status =>
    obtain ⟨⟨o, u⟩, hhalt, hpure⟩ := bind_eq_ok.mp hx
    cases hpure
    obtain ⟨⟨σ', hs'⟩, hinst⟩ :=
      h.toWf.halt (halt_cases h.ready hlive (h.toWf.files_cur hlive) hhalt)
    exact ⟨σ', hs', hinst.live⟩
  | switchTerminal fr t =>
    obtain ⟨σ', hs'⟩ := h.switch (switchTerminal_cases h.ready hx)
    exact ⟨σ', hs', (switch_live_iff himg h hlive hx).mpr ha⟩
  | vidmap v =>
    obtain ⟨⟨r, u⟩, hvid, hpure⟩ := bind_eq_ok.mp hx
    cases hpure
    have hs' := h.vidmap hlive hvid
    exact ⟨σ, hs', (h.vidmap_keeps hlive hvid).live h hs' hlive⟩
  | file op =>
    obtain ⟨⟨r, u⟩, hop, hpure⟩ := bind_eq_ok.mp hx
    cases hpure
    obtain ⟨fa, hstep, hfa⟩ := op.apply_step (h.toWf.files_cur hlive) hop
    have hs' := h.fileStep hlive hfa hstep
    exact ⟨σ, hs', hstep.keeps.live h hs' hlive⟩
  | interrupt y =>
    cases hx
    exact ⟨σ, h.interrupt ha, hlive⟩

theorem Reachable.live (himg : m.image.HasShell) (h : Reachable m SwitchHasRoom s) :
    ∃ σ, s.Sound σ ∧ s.Live s.cur := by
  induction h with
  | boot h₀ hx =>
    have hres := execute_cases h₀.wf.ready hx
    obtain ⟨σ, hwf⟩ := h₀.wf.execute hres
    exact ⟨σ, ⟨hwf, hres.current_started, fun _ => hres.installed⟩, hres.installed.live⟩
  | step _ ha hx ih =>
    obtain ⟨σ, hs, hlive⟩ := ih
    exact live_step himg hs hlive ha hx

/-- In a run in which every switch to an empty terminal finds a free slot, every state
has a live and installed current process, and neither `halt` nor `switch_terminal` runs
out of the page directories. The next switch keeps this up exactly if it has room. -/
theorem current_process_coherent (himg : m.image.HasShell) (h : Reachable m SwitchHasRoom s) :
    s.Coherent ∧ (∀ fr status, ∃ r, s.halt m fr status = .ok r) ∧
      ∀ fr t, ∃ s', s.switchTerminal m fr t = .ok s' ∧
        (s'.Coherent ↔ s.SwitchHasRoom (.switchTerminal fr t)) := by
  obtain ⟨σ, hs, hlive⟩ := h.live himg
  refine ⟨hs.coherent hlive, fun fr status => halt_ok fr himg hs.toWf hlive status,
    fun fr t => ?_⟩
  obtain ⟨s', hx⟩ := switchTerminal_ok fr himg hs.toWf t
  obtain ⟨σ', hs'⟩ := hs.switch (switchTerminal_cases hs.ready hx)
  refine ⟨s', hx, ?_⟩
  rw [← switch_live_iff himg hs hlive hx]
  exact ⟨fun hc => hc.live, hs'.coherent⟩

/-! ## A run -/

theorem Reachable.switchHasRoom (h : Reachable m Ordinary s) : Reachable m SwitchHasRoom s := by
  refine h.mono fun s a ha => ?_
  cases a with
  | switchTerminal fr t => exact fun _ _ => ha.2
  | interrupt y => exact ha.1
  | _ => trivial

theorem execute_shell_first (h : s.Ready σ) (hn : s.processNumber < 6)
    (h0 : s.tty.currTerminal = 0) (hempty : (s.terminalInfo 1).numProcess = 0) :
    ∃ entry s', s.execute shellMachine blankFrame (some shellCommand) = .ok (.started entry, s') ∧
      s'.processNumber = s.processNumber + 1 ∧ s'.tty.currTerminal = 0 ∧
      (s'.terminalInfo 1).numProcess = 0 := by
  obtain ⟨entry, s', hx⟩ := execute_shell (m := shellMachine) blankFrame shellImage_hasShell h hn
  refine ⟨entry, s', hx, ?_⟩
  cases execute_cases h hx with
  | started _ i h1 h6 hfree name args mem =>
    refine ⟨inc32_of_lt (by omega), h0, ?_⟩
    simpa [launched, pushed, h0] using hempty

/-- The first shell starts a second one, which opens a file and halts, and then the second
terminal is switched to, which is empty. -/
theorem shell_on_second_terminal : ∃ s s₁ s₂ s₃ s₄ : Kernel, Reachable shellMachine Ordinary s ∧
    Excursion s s₁ s₂ s₃ ∧ s₃.tty.currTerminal = 0 ∧ (s₃.terminalInfo 1).numProcess = 0 ∧
    s₃.switchTerminal shellMachine blankFrame 1 = .ok s₄ ∧ Reachable shellMachine Ordinary s₄ := by
  have hwf := bootKernel_bootState.wf
  obtain ⟨entry, s, hx, hn, h0, hempty⟩ := execute_shell_first hwf.ready (by decide) rfl rfl
  have hs : Reachable shellMachine Ordinary s := .boot bootKernel_bootState hx
  obtain ⟨σ, hsound⟩ := hs.byLive.sound
  have hlive : s.Live s.cur := (execute_cases hwf.ready hx).installed.live
  obtain ⟨s₁, s₂, s₃, hexc⟩ := excursion hsound hlive (by rw [hn]; decide)
  have hs₃ := hexc.reachable hs (by rw [hn]; decide)
  obtain ⟨hk, hsound₃⟩ := hexc.activity.keeps σ hsound hlive
  obtain ⟨s₄, hswitch⟩ := switchTerminal_ok (m := shellMachine) blankFrame shellImage_hasShell
    hsound₃.toWf 1
  have hn₃ : s₃.processNumber = s.processNumber := congrArg ProcTable.processNumber hk.procTable
  have hempty₃ : s₃.terminalInfo 1 = s.terminalInfo 1 :=
    congrArg (fun c => c.terminalInfo 1) hk.procTable
  refine ⟨s, s₁, s₂, s₃, s₄, hs, hexc, hk.currTerminal.trans h0, by rw [hempty₃, hempty], hswitch,
    .step hs₃ (a := .switchTerminal blankFrame 1) ⟨trivial, ?_⟩ hswitch⟩
  rw [hn₃, hn]
  decide

theorem second_terminal_consistent : ∃ s s₁ s₂ s₃ s₄ : Kernel, Excursion s s₁ s₂ s₃ ∧
    s₃.switchTerminal shellMachine blankFrame 1 = .ok s₄ ∧ Reachable shellMachine ByLive s₄ ∧
    s₄.TableConsistent := by
  obtain ⟨s, s₁, s₂, s₃, s₄, -, hexc, -, -, hswitch, hs₄⟩ := shell_on_second_terminal
  exact ⟨s, s₁, s₂, s₃, s₄, hexc, hswitch, hs₄.byLive, reachable_tableConsistent hs₄.byLive⟩

theorem second_terminal_coherent : ∃ s s₁ s₂ s₃ s₄ : Kernel, Excursion s s₁ s₂ s₃ ∧
    s₃.switchTerminal shellMachine blankFrame 1 = .ok s₄ ∧
    Reachable shellMachine SwitchHasRoom s₄ ∧ s₄.Coherent := by
  obtain ⟨s, s₁, s₂, s₃, s₄, -, hexc, -, -, hswitch, hs₄⟩ := shell_on_second_terminal
  exact ⟨s, s₁, s₂, s₃, s₄, hexc, hswitch, hs₄.switchHasRoom,
    (current_process_coherent shellImage_hasShell hs₄.switchHasRoom).1⟩

/-! ## A full table -/

theorem shells_on_first_terminal (n : ℕ) (h1 : 1 ≤ n) (h6 : n ≤ 6) :
    ∃ s, Reachable shellMachine (fun _ a => a.IsControl) s ∧ (∃ σ, s.Sound σ) ∧ s.Live s.cur ∧
      s.processNumber = n ∧ s.tty.currTerminal = 0 ∧ (s.terminalInfo 1).numProcess = 0 := by
  induction n, h1 using Nat.le_induction with
  | base =>
    have hwf := bootKernel_bootState.wf
    obtain ⟨entry, s, hx, hn, h0, hempty⟩ :=
      execute_shell_first hwf.ready (by decide) rfl rfl
    have hres := execute_cases hwf.ready hx
    obtain ⟨σ, hwf'⟩ := hwf.execute hres
    exact ⟨s, .boot bootKernel_bootState hx, ⟨σ, hwf', hres.current_started, fun _ => hres.installed⟩,
      hres.installed.live, hn, h0, hempty⟩
  | succ n h1 ih =>
    obtain ⟨s, hs, ⟨σ, hsound⟩, hlive, hn, h0, hempty⟩ := ih (by omega)
    obtain ⟨entry, s', hx, hn', h0', hempty'⟩ :=
      execute_shell_first hsound.ready (by omega) h0 hempty
    obtain ⟨hsound', hlive'⟩ := hsound.started (execute_cases hsound.ready hx)
    refine ⟨s', .step hs (a := .execute blankFrame (some shellCommand)) trivial ?_, ⟨_, hsound'⟩,
      hlive', by omega, h0', hempty'⟩
    exact bind_eq_ok.mpr ⟨_, hx, rfl⟩

/-- Six shells on the first terminal and a switch to the second leave no current process. -/
theorem full_table_switch_incoherent :
    ∃ s, Reachable shellMachine (fun _ a => a.IsControl) s ∧ ¬ s.Coherent := by
  obtain ⟨s, hs, ⟨σ, hsound⟩, hlive, hn, h0, hempty⟩ := shells_on_first_terminal 6 (by omega) le_rfl
  obtain ⟨s', hx⟩ := switchTerminal_ok (m := shellMachine) blankFrame shellImage_hasShell
    hsound.toWf 1
  refine ⟨s', .step hs (a := .switchTerminal blankFrame 1) trivial hx, fun hc => ?_⟩
  have hroom := (switch_live_iff shellImage_hasShell hsound hlive hx).mp hc.live
  have hlt := hroom (by rw [h0]; decide) hempty
  omega

end KudOS.Kernel
