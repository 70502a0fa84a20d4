import KudOS.ProcessNesting

/-!
# Exit codes

A call of `execute` that starts a program is left on its kernel stack until the program
halts. The run is followed together with the calls that are pending: which process made
the call, and on which stack. `halt` finds its way back to the right call, but that call
always returns 0.
-/

namespace KudOS.Kernel

variable {m : Machine} {fr : StackFrame} {s s' : Kernel} {σ : TerminalId → List ℕ}

/-- A call of `execute`: its stack frame, and the process that made it, 0 for the kernel. -/
structure Call where
  frame : StackFrame
  caller : ℕ

/-- The call behind every process, after the step `a` from `s` to `s'`. A slot that is
current and was not in use before has a new process; the last process of a terminal is
always replaced by a new one. -/
def record (s : Kernel) (calls : ℕ → Call) (s' : Kernel) : Step → ℕ → Call
  | .execute fr _ =>
    if s.Live s'.cur then calls else Function.update calls s'.cur ⟨fr, s.cur⟩
  | .switchTerminal fr _ =>
    if s.Live s'.cur then calls else Function.update calls s'.cur ⟨fr, 0⟩
  | .halt fr _ =>
    if (s.terminalInfo s.tty.currTerminal).numProcess = 1 then
      Function.update calls s'.cur ⟨fr, 0⟩
    else calls
  | _ => calls

/-- The states of the runs, with the calls behind their processes. -/
inductive Traced (m : Machine) : Kernel → (ℕ → Call) → Prop where
  | boot {s₀ s : Kernel} {fr : StackFrame} {entry : ℕ} (h₀ : BootState m s₀)
      (hx : s₀.execute m fr (some shellCommand) = .ok (.started entry, s)) :
      Traced m s fun _ => ⟨fr, 0⟩
  | step {s s' : Kernel} {calls : ℕ → Call} {a : Step} (h : Traced m s calls) (ha : s.ByLive a)
      (hx : s.step m a = .ok s') : Traced m s' (s.record calls s' a)

/-- The PCB of every live process leads back to the call that started it. -/
def Recorded (s : Kernel) (calls : ℕ → Call) : Prop :=
  ∀ i, s.Live i → (s.pcbs i).esp = (calls i).frame.esp ∧ (s.pcbs i).ebp = (calls i).frame.ebp ∧
    (s.pcbs i).parentId = (calls i).caller

variable {calls : ℕ → Call}

theorem Recorded.congr (h : s.Recorded calls)
    (hpcb : ∀ i, s'.Live i → s.Live i ∧ (s'.pcbs i).esp = (s.pcbs i).esp ∧
      (s'.pcbs i).ebp = (s.pcbs i).ebp ∧ (s'.pcbs i).parentId = (s.pcbs i).parentId) :
    s'.Recorded calls := by
  intro i hi
  obtain ⟨hlive, hesp, hebp, hparent⟩ := hpcb i hi
  rw [hesp, hebp, hparent]
  exact h i hlive

/-- The call of a slot without a process does not matter. -/
theorem Recorded.update (h : s.Recorded calls) {i : ℕ} (hi : ¬ s.Live i) (c : Call) :
    s.Recorded (Function.update calls i c) := by
  intro j hj
  have hji : j ≠ i := fun hji => hi (hji ▸ hj)
  rw [Function.update_of_ne hji]
  exact h j hj

theorem Recorded.started {command : Option (List UInt8)} {entry : ℕ} (h : s.Recorded calls)
    (hr : s.Ready σ) (hx : ExecuteResult m fr command s (.started entry) s') :
    ¬ s.Live s'.cur ∧ s'.Recorded (Function.update calls s'.cur ⟨fr, s.cur⟩) := by
  cases hx with
  | started hn i h1 h6 hfree name args mem =>
    refine ⟨fun hl => hl hfree, fun j hj => ?_⟩
    have hcur : (s.launched m fr i name args mem).cur = i := rfl
    rw [hcur]
    by_cases hji : j = i
    · subst hji
      have hpcb : (s.launched m fr j name args mem).pcbs j =
          { s.commandPcb j name args with esp := fr.esp, ebp := fr.ebp } := Function.update_self ..
      rw [hpcb, Function.update_self, hr.cur_eq_top]
      exact ⟨rfl, rfl, rfl⟩
    · have hpcb : (s.launched m fr i name args mem).pcbs j = s.pcbs j :=
        Function.update_of_ne hji ..
      rw [Live, hpcb] at hj
      rw [hpcb, Function.update_of_ne hji]
      exact h j hj

theorem Recorded.returned {command : Option (List UInt8)} {v : ℤ} (h : s.Recorded calls)
    (hwf : s.Wf σ) (hx : ExecuteResult m fr command s (.returned v) s') :
    s'.Recorded calls ∧ s'.cur = s.cur := by
  obtain ⟨hsame, -, -⟩ := hx.unchanged hwf
  refine ⟨h.congr fun i hi => ?_, hsame.cur⟩
  have hid : (s'.pcbs i).programId = (s.pcbs i).programId :=
    congrArg (fun c => c.programId i) hsame.procTable
  rw [Live, hid] at hi
  rw [hsame.pcbs_of_live i hi]
  exact ⟨hi, rfl, rfl, rfl⟩

theorem Recorded.execute {command : Option (List UInt8)} {o : ExecOutcome} (h : s.Recorded calls)
    (hwf : s.Wf σ) (hx : ExecuteResult m fr command s o s') :
    s'.Recorded (if s.Live s'.cur then calls else Function.update calls s'.cur ⟨fr, s.cur⟩) := by
  cases o with
  | started entry =>
    obtain ⟨hnew, hrec⟩ := h.started hwf.ready hx
    rwa [if_neg hnew]
  | returned v =>
    obtain ⟨hrec, hcur⟩ := h.returned hwf hx
    split
    · exact hrec
    · rename_i hdead
      refine hrec.update (fun hl => hdead ?_) _
      have hid : (s'.pcbs s'.cur).programId = (s.pcbs s'.cur).programId :=
        congrArg (fun c => c.programId s'.cur) (hx.unchanged hwf).1.procTable
      rwa [Live, hid] at hl

theorem Recorded.popped (h : s.Recorded calls) (fa : ℕ → FsDescriptor) :
    (s.popped fa).Recorded calls := by
  refine h.congr fun i hi => ?_
  by_cases hic : i = s.cur
  · rw [hic, Live, popped_pcbs_self] at hi
    exact absurd rfl hi
  · rw [Live, popped_pcbs_of_ne s fa hic] at hi
    rw [popped_pcbs_of_ne s fa hic]
    exact ⟨hi, rfl, rfl, rfl⟩

theorem Recorded.keeps (h : s.Recorded calls) (hk : s.Keeps s') : s'.Recorded calls := by
  refine h.congr fun i hi => ?_
  have hid : (s'.pcbs i).programId = (s.pcbs i).programId :=
    congrArg (fun c => c.programId i) hk.procTable
  have hparent : (s'.pcbs i).parentId = (s.pcbs i).parentId :=
    congrArg (fun c => c.parentId i) hk.procTable
  rw [Live, hid] at hi
  by_cases hic : i = s.cur
  · have hesp := hk.esp
    have hebp := hk.ebp
    rw [curPcb, curPcb, hk.cur, ← hic] at hesp hebp
    exact ⟨hi, hesp, hebp, hparent⟩
  · rw [hk.pcbs_of_live i hi hic]
    exact ⟨hi, rfl, rfl, rfl⟩

theorem Recorded.switch {t : TerminalId} (h : s.Recorded calls) (hs : s.Sound σ)
    (hx : SwitchResult m fr s σ t s') :
    s'.Recorded (if s.Live s'.cur then calls else Function.update calls s'.cur ⟨fr, 0⟩) := by
  cases hx with
  | same ht =>
    split
    · exact h
    · rename_i hdead
      exact h.update hdead _
  | live ht j l hσ =>
    have hlive : s.Live (s.switched t j).cur := (hs.toWf.switched hσ).2.live
    rw [if_pos hlive]
    exact h
  | empty ht hσ o s' hexec =>
    have hwf := hs.toWf.shown t
    have hcur : (s.shown t).cur = 0 := by
      have htop := hs.ready.stacked.top_eq t
      rwa [hσ] at htop
    have hshown : (s.shown t).Recorded calls := h
    have hrec := hshown.execute hwf hexec
    rwa [hcur] at hrec

theorem Recorded.halt {o : HaltOutcome} (h : s.Recorded calls) (hs : s.Sound σ)
    (hx : HaltResult m fr s σ o s') :
    s'.Recorded (if (s.terminalInfo s.tty.currTerminal).numProcess = 1 then
      Function.update calls s'.cur ⟨fr, 0⟩ else calls) := by
  have hlen : (s.terminalInfo s.tty.currTerminal).numProcess = (σ s.tty.currTerminal).length :=
    hs.ready.stacked.length_eq s.tty.currTerminal
  cases hx with
  | resumed j l hσ fa hfa =>
    rw [hσ, List.length_cons, List.length_cons] at hlen
    rw [if_neg (by omega)]
    exact h.popped fa
  | restarted hσ fa hfa entry s' hexec =>
    rw [hσ, List.length_singleton] at hlen
    rw [if_pos hlen]
    have hready := hs.ready.popped hσ fa
    have hcur : (s.popped fa).cur = 0 := by
      rw [hready.cur_eq_top]
      have htop := hready.stacked.top_eq s.tty.currTerminal
      rwa [Function.update_self] at htop
    have hrec := ((h.popped fa).started hready hexec).2
    rwa [hcur] at hrec

theorem Recorded.step {a : Step} (h : s.Recorded calls) (hs : s.Sound σ) (ha : s.ByLive a)
    (hx : s.step m a = .ok s') : s'.Recorded (s.record calls s' a) := by
  cases a with
  | execute fr command =>
    obtain ⟨⟨o, u⟩, hexec, hpure⟩ := bind_eq_ok.mp hx
    cases hpure
    exact h.execute hs.toWf (execute_cases hs.ready hexec)
  | halt fr status =>
    obtain ⟨⟨o, u⟩, hhalt, hpure⟩ := bind_eq_ok.mp hx
    cases hpure
    exact h.halt hs (halt_cases hs.ready ha (hs.toWf.files_cur ha) hhalt)
  | switchTerminal fr t => exact h.switch hs (switchTerminal_cases hs.ready hx)
  | vidmap v =>
    obtain ⟨⟨r, u⟩, hvid, hpure⟩ := bind_eq_ok.mp hx
    cases hpure
    exact h.keeps (hs.vidmap_keeps ha hvid)
  | file op =>
    obtain ⟨⟨r, u⟩, hop, hpure⟩ := bind_eq_ok.mp hx
    cases hpure
    obtain ⟨fa, hstep, -⟩ := FileOp.apply_step (hs.toWf.files_cur ha) hop
    exact h.keeps hstep.keeps
  | interrupt y =>
    cases hx
    exact h.keeps (interrupt_keeps ha)

theorem Traced.reachable (h : Traced m s calls) : Reachable m ByLive s := by
  induction h with
  | boot h₀ hx => exact .boot h₀ hx
  | step _ ha hx ih => exact .step ih ha hx

/-- By induction on the run. -/
theorem Traced.recorded (h : Traced m s calls) : s.Recorded calls := by
  induction h with
  | @boot s₀ s fr entry h₀ hx =>
    have hready := h₀.wf.ready
    have hcalls : s₀.Recorded fun _ => ⟨fr, 0⟩ := by
      intro i hi
      rw [Live, h₀.pcbs] at hi
      exact absurd rfl hi
    have hcur : s₀.cur = 0 := by rw [cur, h₀.currentPcb, Option.getD_none]
    have hrec := (hcalls.started hready (execute_cases hready hx)).2
    rwa [hcur, Function.update_eq_self] at hrec
  | step h ha hx ih =>
    obtain ⟨σ, hs⟩ := h.reachable.sound
    exact ih.step hs ha hx

/-! ## The value of the pending call -/

/-- A process with a live parent is not alone on its terminal. -/
theorem Ready.above_parent (h : s.Ready σ) (hlive : s.Live s.cur)
    (hparent : s.Live s.curPcb.parentId) : ∃ j l, σ s.tty.currTerminal = s.cur :: j :: l := by
  obtain ⟨l, hσ⟩ := h.live_iff.mp hlive
  cases l with
  | cons j l => exact ⟨j, l, hσ⟩
  | nil =>
    have hv := h.stacked.visits s.tty.currTerminal
    rw [hσ] at hv
    have h0 : s.curPcb.parentId = 0 := hv.tail.2.head_eq
    have hfree := h.stacked.free_of_not_mem 0 (by omega) fun t ht => by
      have := h.stacked.slot_of_mem t 0 ht
      omega
    rw [h0] at hparent
    exact absurd hfree.1 hparent

/-- The right call resumes, for the right process, with the value 0. -/
theorem Traced.halt_to_parent (h : Traced m s calls) (hlive : s.Live s.cur)
    (hparent : s.Live s.curPcb.parentId) (fr : StackFrame) (status : UInt8) :
    s.curPcb.parentId = (calls s.cur).caller ∧
    ∃ s', s.halt m fr status =
        .ok (.resumed (calls s.cur).frame.esp (calls s.cur).frame.ebp 0, s') ∧
      s'.cur = (calls s.cur).caller := by
  obtain ⟨σ, hs⟩ := h.reachable.sound
  obtain ⟨hesp, hebp, hcaller⟩ := h.recorded s.cur hlive
  obtain ⟨j, l, hσ⟩ := hs.ready.above_parent hlive hparent
  obtain ⟨fa, hclose, -, -⟩ := closeAll_eq m (hs.toWf.files_cur hlive)
  refine ⟨hcaller, s.resumed fa, ?_, ?_⟩
  · rw [halt_eq hs.ready hσ, if_neg (by simp), haltTail_parent hs.ready hσ hclose, ← hesp, ← hebp]
    rfl
  · change (s.popped fa).cur = _
    rw [cur, popped_currentPcb, Option.getD_some]
    exact hcaller

/-- What the comments of `halt` and `execute` promise: the parent of the process that
halts goes on after its call of `execute`, and the value of this call is `status`. -/
def StatusReachesParent (m : Machine) (s : Kernel) (calls : ℕ → Call) (fr : StackFrame)
    (status : UInt8) : Prop :=
  s.curPcb.parentId = (calls s.cur).caller ∧
  ∃ s', s.halt m fr status =
      .ok (.resumed (calls s.cur).frame.esp (calls s.cur).frame.ebp status.toNat, s') ∧
    s'.cur = (calls s.cur).caller

/-- In every run, the exit code of a process reaches its live parent exactly if it is 0. -/
theorem status_reaches_parent_iff (h : Traced m s calls) (hlive : s.Live s.cur)
    (hparent : s.Live s.curPcb.parentId) (fr : StackFrame) (status : UInt8) :
    StatusReachesParent m s calls fr status ↔ status = 0 := by
  obtain ⟨hcaller, s', hhalt, hcur⟩ := h.halt_to_parent hlive hparent fr status
  constructor
  · rintro ⟨-, u, hu, -⟩
    rw [hhalt] at hu
    have hout := (Prod.mk.inj (Except.ok.inj hu)).1
    obtain ⟨-, -, hvalue⟩ := HaltOutcome.resumed.inj hout
    have hnat : status.toNat = (0 : UInt8).toNat := by
      rw [UInt8.toNat_zero]
      omega
    exact UInt8.toNat_inj.mp hnat
  · rintro rfl
    exact ⟨hcaller, s', hhalt, hcur⟩

theorem second_shell_traced : ∃ s calls, Traced shellMachine s calls ∧ s.Live s.cur ∧
    s.Live s.curPcb.parentId := by
  obtain ⟨entry, s, hx⟩ := execute_shell (m := shellMachine) blankFrame shellImage_hasShell
    bootKernel_bootState.wf.ready (by decide)
  have hs : Traced shellMachine s _ := .boot bootKernel_bootState hx
  obtain ⟨σ, hsound⟩ := hs.reachable.sound
  have hn : s.processNumber = 1 := by
    cases execute_cases bootKernel_bootState.wf.ready hx with
    | started hn i h1 h6 hfree name args mem => rfl
  have hlive : s.Live s.cur := (execute_cases bootKernel_bootState.wf.ready hx).installed.live
  obtain ⟨entry', s', hx'⟩ := execute_shell (m := shellMachine) blankFrame shellImage_hasShell
    hsound.ready (by omega)
  have hres := execute_cases hsound.ready hx'
  have hstep : s.step shellMachine (.execute blankFrame (some shellCommand)) = .ok s' :=
    bind_eq_ok.mpr ⟨_, hx', rfl⟩
  have ha : s.ByLive (.execute blankFrame (some shellCommand)) := trivial
  refine ⟨s', _, hs.step ha hstep, hres.installed.live, ?_⟩
  cases hres with
  | started hn i h1 h6 hfree name args mem =>
    have hpcb : (s.launched shellMachine blankFrame i name args mem).curPcb =
        { s.commandPcb i name args with esp := 0, ebp := 0 } := Function.update_self ..
    have hparent : (s.launched shellMachine blankFrame i name args mem).curPcb.parentId = s.cur := by
      rw [hpcb, hsound.ready.cur_eq_top]
      rfl
    have hne : s.cur ≠ i := fun hci => hlive (hci ▸ hfree)
    have hold : (s.launched shellMachine blankFrame i name args mem).pcbs s.cur = s.pcbs s.cur :=
      Function.update_of_ne hne ..
    rw [hparent, Live, hold]
    exact hlive

/-- The second shell leaves with code 0. -/
theorem second_shell_status_zero : ∃ s calls, Traced shellMachine s calls ∧ s.Live s.cur ∧
    s.Live s.curPcb.parentId ∧ StatusReachesParent shellMachine s calls blankFrame 0 := by
  obtain ⟨s, calls, hs, hlive, hparent⟩ := second_shell_traced
  exact ⟨s, calls, hs, hlive, hparent,
    (status_reaches_parent_iff hs hlive hparent blankFrame 0).mpr rfl⟩

/-- The second shell leaves with code 1, and its parent is told 0. -/
theorem second_shell_status_lost : ∃ s calls, Traced shellMachine s calls ∧ s.Live s.cur ∧
    s.Live s.curPcb.parentId ∧ ¬ StatusReachesParent shellMachine s calls blankFrame 1 := by
  obtain ⟨s, calls, hs, hlive, hparent⟩ := second_shell_traced
  obtain ⟨-, s', hhalt, -⟩ := hs.halt_to_parent hlive hparent blankFrame 1
  refine ⟨s, calls, hs, hlive, hparent, fun hreach => ?_⟩
  obtain ⟨-, u, hu, -⟩ := hreach
  rw [hhalt] at hu
  have hout := (Prod.mk.inj (Except.ok.inj hu)).1
  obtain ⟨-, -, hvalue⟩ := HaltOutcome.resumed.inj hout
  exact absurd hvalue (by decide)

end KudOS.Kernel
