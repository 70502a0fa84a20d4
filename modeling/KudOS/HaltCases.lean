import KudOS.DescriptorTable
import KudOS.ExecuteCases

/-!
# What halt and switch_terminal can do

`halt` pops the current process from its terminal. Below it lies either its parent,
which is installed again, or nothing, and then a new shell is pushed in its place.
`switch_terminal` installs the top process of the other terminal, or pushes a shell on
it. Both lists of results are complete for a current process that is live.
-/

namespace KudOS.Kernel

variable {m : Machine} {fr : StackFrame} {s s' : Kernel} {σ : TerminalId → List ℕ}

theorem Ready.programId_top (h : s.Ready σ) : (s.pcbs s.top).programId = s.top :=
  h.stacked.programId_top s.tty.currTerminal

theorem Ready.cur_eq_top (h : s.Ready σ) : s.cur = s.top := by
  rcases h.current with hc | ⟨hc, h0⟩
  · rw [cur, hc, Option.getD_some]
  · rw [cur, hc, h0, Option.getD_none]

theorem Ready.live_iff (h : s.Ready σ) : s.Live s.cur ↔ ∃ l, σ s.tty.currTerminal = s.cur :: l := by
  have htop := h.stacked.top_eq s.tty.currTerminal
  change s.top = _ at htop
  rw [Live, h.cur_eq_top, h.programId_top]
  cases hl : σ s.tty.currTerminal with
  | nil =>
    rw [hl] at htop
    simpa using htop
  | cons i l =>
    rw [hl, List.headD_cons] at htop
    have hi := h.stacked.slot_of_mem s.tty.currTerminal i (by simp [hl])
    rw [htop]
    exact ⟨fun _ => ⟨l, rfl⟩, fun _ => by omega⟩

/-! ## halt -/

/-- The state after `pcb_destroy` of the current process, whose table was `fa` by then. -/
def popped (s : Kernel) (fa : ℕ → FsDescriptor) : Kernel :=
  (s.withFiles fa).pcbDestroy s.cur

theorem procTable_withFiles (s : Kernel) (fa : ℕ → FsDescriptor) :
    (s.withFiles fa).procTable = s.procTable := by
  ext1
  · funext j
    by_cases hj : j = s.cur <;> simp [procTable, withFiles, setPcb, hj, curPcb]
  · funext j
    by_cases hj : j = s.cur <;> simp [procTable, withFiles, setPcb, hj, curPcb]
  · rfl
  · rfl

theorem procTable_pcbDestroy (s : Kernel) (i : ℕ) :
    (s.pcbDestroy i).procTable = s.procTable.pop s.tty.currTerminal i := by
  ext1
  · funext j
    by_cases hj : j = i <;> simp [procTable, pcbDestroy, ProcTable.pop, setPcb, wipePcb, hj]
  · funext j
    by_cases hj : j = i <;> simp [procTable, pcbDestroy, ProcTable.pop, setPcb, wipePcb, hj]
  · rfl
  · rfl

theorem procTable_popped (s : Kernel) (fa : ℕ → FsDescriptor) :
    (s.popped fa).procTable = s.procTable.pop s.tty.currTerminal s.cur := by
  rw [popped, procTable_pcbDestroy, procTable_withFiles, withFiles_tty]

theorem popped_pcbs_self (s : Kernel) (fa : ℕ → FsDescriptor) :
    (s.popped fa).pcbs s.cur = wipePcb { s.curPcb with fileArray := fa } := by
  simp [popped, pcbDestroy, setPcb, withFiles]

theorem popped_pcbs_of_ne (s : Kernel) (fa : ℕ → FsDescriptor) {i : ℕ} (h : i ≠ s.cur) :
    (s.popped fa).pcbs i = s.pcbs i := by
  simp [popped, pcbDestroy, setPcb, withFiles, h]

theorem popped_currentPcb (s : Kernel) (fa : ℕ → FsDescriptor) :
    (s.popped fa).currentPcb = some s.curPcb.parentId := by
  simp [popped, pcbDestroy, setPcb, withFiles]

theorem Ready.popped (h : s.Ready σ) {l : List ℕ} (hσ : σ s.tty.currTerminal = s.cur :: l)
    (fa : ℕ → FsDescriptor) :
    (s.popped fa).Ready (Function.update σ s.tty.currTerminal l) := by
  refine ⟨?_, Or.inl ?_⟩
  · rw [procTable_popped]
    exact h.stacked.pop hσ
  · rw [popped_currentPcb]
    simp [top, Kernel.popped, pcbDestroy, setPcb, withFiles]

/-- The state after the parent of the current process was installed again. -/
def resumed (s : Kernel) (fa : ℕ → FsDescriptor) : Kernel :=
  { s.popped fa with
    tssEsp0 := (s.popped fa).curPcb.address
    paging := { s.paging with cr3 := s.curPcb.parentId - 1 } }

/-- The states in which `halt` can leave the kernel. -/
inductive HaltResult (m : Machine) (fr : StackFrame) (s : Kernel) (σ : TerminalId → List ℕ) :
    HaltOutcome → Kernel → Prop where
  | resumed (j : ℕ) (l : List ℕ) (hσ : σ s.tty.currTerminal = s.cur :: j :: l)
      (fa : ℕ → FsDescriptor) (hfa : FdClean fa) :
      HaltResult m fr s σ (.resumed s.curPcb.esp s.curPcb.ebp 0) (s.resumed fa)
  | restarted (hσ : σ s.tty.currTerminal = [s.cur]) (fa : ℕ → FsDescriptor) (hfa : FdClean fa)
      (entry : ℕ) (s' : Kernel)
      (hx : ExecuteResult m fr (some shellCommand) (s.popped fa) (.started entry) s') :
      HaltResult m fr s σ (.restarted entry) s'

theorem curPcb_tssEsp0 (s : Kernel) (e : ℕ) : curPcb { s with tssEsp0 := e } = s.curPcb := rfl

theorem haltTail_eq {fa : ℕ → FsDescriptor} (h : s.closeAll m = .ok (s.withFiles fa)) :
    s.haltTail m = (do
      let p ← s.paging.loadPageDirectory (dec32 (s.popped fa).curPcb.programId)
      return (.resumed s.curPcb.esp s.curPcb.ebp 0,
        { s.popped fa with tssEsp0 := (s.popped fa).curPcb.address, paging := p })) := by
  have hpop : (s.withFiles fa).pcbDestroy (s.withFiles fa).cur = s.popped fa := rfl
  have hpaging : (s.popped fa).paging = s.paging := rfl
  rw [haltTail, h, ok_bind, hpop]
  dsimp only
  rw [curPcb_tssEsp0, hpaging]

/-- The parent of a process that is not alone on its terminal is the one below it. -/
theorem Ready.parentId_cur (h : s.Ready σ) {j : ℕ} {l : List ℕ}
    (hσ : σ s.tty.currTerminal = s.cur :: j :: l) : s.curPcb.parentId = j := by
  have hv := h.stacked.visits s.tty.currTerminal
  rw [hσ] at hv
  exact hv.tail.2.head_eq

/-- Popping to a live parent: the parent becomes current and is installed. -/
theorem haltTail_parent {j : ℕ} {l : List ℕ} (h : s.Ready σ)
    (hσ : σ s.tty.currTerminal = s.cur :: j :: l) {fa : ℕ → FsDescriptor}
    (hclose : s.closeAll m = .ok (s.withFiles fa)) :
    s.haltTail m = .ok (.resumed s.curPcb.esp s.curPcb.ebp 0, s.resumed fa) := by
  have hr := h.popped hσ fa
  have hj := h.stacked.slot_of_mem s.tty.currTerminal j (by simp [hσ])
  have hparent := h.parentId_cur hσ
  have hcur : (s.popped fa).cur = j := by
    rw [cur, popped_currentPcb, hparent, Option.getD_some]
  have hid : (s.popped fa).curPcb.programId = j := by
    rw [curPcb, hr.cur_eq_top, hr.programId_top, ← hr.cur_eq_top, hcur]
  have hload : s.paging.loadPageDirectory (j - 1) = .ok { s.paging with cr3 := j - 1 } :=
    if_pos (by rw [maxTasks]; omega)
  rw [haltTail_eq hclose, hid, dec32_of_pos (by omega) (by omega), hload, resumed, hparent]
  rfl

/-- With `current_pcb = &pcbs[0]` the reload of the page directory runs out of range. -/
theorem haltTail_empty (h : s.Ready σ) (h0 : s.cur = 0) (r : HaltOutcome × Kernel) :
    s.haltTail m ≠ .ok r := by
  intro hx
  have hx' := hx
  rw [haltTail] at hx'
  obtain ⟨u, hclose, -⟩ := bind_eq_ok.mp hx'
  obtain ⟨fa, rfl⟩ := closeAll_frame hclose
  have hfree := h.stacked.free_of_not_mem 0 (by omega) fun t ht => by
    have := h.stacked.slot_of_mem t 0 ht
    omega
  have hparent : s.curPcb.parentId = 0 := by
    rw [curPcb, h0]
    exact hfree.2
  have hself := popped_pcbs_self s fa
  rw [h0] at hself
  have hid : (s.popped fa).curPcb.programId = 0 := by
    rw [curPcb, cur, popped_currentPcb, hparent, Option.getD_some, hself]
    rfl
  rw [haltTail_eq hclose, hid] at hx
  obtain ⟨p, hload, -⟩ := bind_eq_ok.mp hx
  rw [Paging.loadPageDirectory, if_neg (by decide)] at hload
  cases hload

/-- The way back into `halt` when no shell could be started ends there too. -/
theorem haltTail_returned {command : Option (List UInt8)} {v : ℤ} (h : s.Ready σ)
    (h0 : s.cur = 0) (hx : ExecuteResult m fr command s (.returned v) s')
    (r : HaltOutcome × Kernel) : s'.haltTail m ≠ .ok r := by
  cases hx with
  | limit hn y hy =>
    have hterm : y.currTerminal = s.tty.currTerminal := by
      rw [hy, Tty.printText_currTerminal]
    exact haltTail_empty (h.withTty y hterm) h0 r
  | failed hn i h1 h6 hfree name args y hy =>
    have hterm : y.currTerminal = s.tty.currTerminal := by
      rw [hy, rejectTty_currTerminal]
    refine haltTail_empty (h.withdrawn h6 hfree y hterm _) ?_ r
    rw [← h0, h.cur_eq_top]
    rfl

/-- `halt` tests whether the process is alone on its terminal. -/
theorem halt_eq {status : UInt8} {l : List ℕ} (h : s.Ready σ)
    (hσ : σ s.tty.currTerminal = s.cur :: l) :
    s.halt m fr status =
      if l = [] then (do
        let s ← s.closeAll m
        let s := s.pcbDestroy s.cur
        let (o, s) ← s.execute m fr (some shellCommand)
        match o with
        | .started entry => return (.restarted entry, s)
        | .returned _ => s.haltTail m)
      else s.haltTail m := by
  have hlen := h.stacked.length_eq s.tty.currTerminal
  have hle := h.stacked.length_le s.tty.currTerminal
  change (s.terminalInfo s.tty.currTerminal).numProcess = _ at hlen
  rw [halt, hlen, dec32_of_pos (by rw [hσ]; simp) (by omega), hσ]
  cases l with
  | nil =>
    have hnil : ([] : List ℕ) = [] := rfl
    rw [if_pos hnil]
    exact if_pos (by simp)
  | cons j l => rw [if_neg (by simp), if_neg (by simp)]

theorem halt_cases {status : UInt8} {o : HaltOutcome} (h : s.Ready σ) (hlive : s.Live s.cur)
    (hfiles : FdTable s.files) (hx : s.halt m fr status = .ok (o, s')) :
    HaltResult m fr s σ o s' := by
  obtain ⟨l, hσ⟩ := h.live_iff.mp hlive
  obtain ⟨fa, hclose, -, hclean⟩ := closeAll_eq m hfiles
  rw [halt_eq h hσ] at hx
  cases l with
  | nil =>
    rw [if_pos rfl, hclose, ok_bind, withFiles_cur] at hx
    have hready := h.popped hσ fa
    have hcur0 : (s.popped fa).cur = 0 := by
      rw [hready.cur_eq_top]
      have htop := hready.stacked.top_eq s.tty.currTerminal
      rwa [Function.update_self] at htop
    obtain ⟨⟨o', u⟩, hexec, hx⟩ := bind_eq_ok.mp hx
    have hres := execute_cases hready hexec
    cases o' with
    | started entry =>
      cases hx
      exact .restarted hσ fa hclean entry _ hres
    | returned v => exact absurd hx (haltTail_returned hready hcur0 hres (o, s'))
  | cons j l =>
    rw [if_neg (by simp), haltTail_parent h hσ hclose] at hx
    cases hx
    exact .resumed j l hσ fa hclean

/-! ## switch_terminal -/

/-- The state after terminal `t` was shown and its top process made current. -/
def shown (s : Kernel) (t : TerminalId) : Kernel :=
  { s with
    tty := s.tty.switchScreen t
    currentPcb := some (s.terminalInfo t).topProcessId }

theorem shown_currTerminal (s : Kernel) (t : TerminalId) : (s.shown t).tty.currTerminal = t :=
  Tty.switches_switchScreen.active s.tty t

theorem Ready.shown (h : s.Ready σ) (t : TerminalId) : (s.shown t).Ready σ := by
  refine ⟨h.stacked, Or.inl ?_⟩
  rw [top, shown_currTerminal]
  rfl

/-- The state after the process `j` on top of terminal `t` was installed. -/
def switched (s : Kernel) (t : TerminalId) (j : ℕ) : Kernel :=
  { s.shown t with
    paging := { s.paging with cr3 := j - 1 }
    tssEsp0 := (s.pcbs j).address }

/-- The states in which `switch_terminal` can leave the kernel. -/
inductive SwitchResult (m : Machine) (fr : StackFrame) (s : Kernel) (σ : TerminalId → List ℕ)
    (t : TerminalId) : Kernel → Prop where
  | same (ht : t = s.tty.currTerminal) : SwitchResult m fr s σ t s
  | live (ht : t ≠ s.tty.currTerminal) (j : ℕ) (l : List ℕ) (hσ : σ t = j :: l) :
      SwitchResult m fr s σ t (s.switched t j)
  | empty (ht : t ≠ s.tty.currTerminal) (hσ : σ t = []) (o : ExecOutcome) (s' : Kernel)
      (hx : ExecuteResult m fr (some shellCommand) (s.shown t) o s') :
      SwitchResult m fr s σ t s'

theorem switchTerminal_of_ne {t : TerminalId} (ht : t ≠ s.tty.currTerminal) :
    s.switchTerminal m fr t =
      if (s.shown t).curPcb.programId = 0 then
        (do return (← (s.shown t).execute m fr (some shellCommand)).2)
      else do
        let p ← s.paging.loadPageDirectory (dec32 (s.shown t).curPcb.programId)
        return { s.shown t with paging := p, tssEsp0 := (s.shown t).curPcb.address } := by
  rw [switchTerminal, if_neg ht]
  rfl

theorem shown_curPcb (s : Kernel) (t : TerminalId) :
    (s.shown t).curPcb = s.pcbs (s.terminalInfo t).topProcessId := rfl

theorem Ready.shown_programId (h : s.Ready σ) (t : TerminalId) :
    (s.shown t).curPcb.programId = (σ t).headD 0 := by
  have htop := h.stacked.top_eq t
  have hid := h.stacked.programId_top t
  rw [htop] at hid
  rw [shown_curPcb]
  change (s.terminalInfo t).topProcessId = _ at htop
  rw [htop]
  exact hid

theorem switchTerminal_live (h : s.Ready σ) {t : TerminalId} (ht : t ≠ s.tty.currTerminal)
    {j : ℕ} {l : List ℕ} (hσ : σ t = j :: l) :
    s.switchTerminal m fr t = .ok (s.switched t j) := by
  have hj := h.stacked.slot_of_mem t j (by simp [hσ])
  have htop : (s.terminalInfo t).topProcessId = (σ t).headD 0 := h.stacked.top_eq t
  rw [switchTerminal_of_ne ht, h.shown_programId, hσ, List.headD_cons, if_neg (by omega),
    dec32_of_pos (by omega) (by omega), Paging.loadPageDirectory,
    if_pos (by rw [maxTasks]; omega), shown_curPcb, htop, hσ]
  rfl

theorem switchTerminal_cases {t : TerminalId} (h : s.Ready σ)
    (hx : s.switchTerminal m fr t = .ok s') : SwitchResult m fr s σ t s' := by
  by_cases ht : t = s.tty.currTerminal
  · rw [switchTerminal, if_pos ht] at hx
    cases hx
    exact .same ht
  cases hσ : σ t with
  | nil =>
    rw [switchTerminal_of_ne ht, h.shown_programId, hσ, List.headD_nil, if_pos rfl] at hx
    obtain ⟨⟨o, u⟩, hexec, hpure⟩ := bind_eq_ok.mp hx
    cases hpure
    exact .empty ht hσ o _ (execute_cases (h.shown t) hexec)
  | cons j l =>
    rw [switchTerminal_live h ht hσ] at hx
    cases hx
    exact .live ht j l hσ

end KudOS.Kernel
