import KudOS.ProcessStacks
import KudOS.SystemCalls
import KudOS.TerminalLocality

/-!
# What a call of execute can do

`execute` commits before it validates: the new process is counted, initialised and
made current, and a command that turns out to be invalid takes all of this back.
`ExecuteResult` lists the possible final states in closed form; `execute_cases` says
that there are no others.
-/

namespace KudOS.Kernel

/-- The process number on top of the active terminal. -/
def top (s : Kernel) : ℕ := (s.terminalInfo s.tty.currTerminal).topProcessId

/-- The process table describes the stacks `σ`, and `current_pcb` is the top process
of the active terminal, or still NULL while that terminal is empty. -/
structure Ready (s : Kernel) (σ : TerminalId → List ℕ) : Prop where
  stacked : Stacked s.procTable σ
  current : s.currentPcb = some s.top ∨ s.currentPcb = none ∧ s.top = 0

theorem findFreePcb_spec (pcbs : ℕ → Pcb) (h : ∃ i, 1 ≤ i ∧ i ≤ 6 ∧ (pcbs i).programId = 0) :
    1 ≤ findFreePcb pcbs ∧ findFreePcb pcbs ≤ 6 ∧ (pcbs (findFreePcb pcbs)).programId = 0 := by
  obtain ⟨i, h1, h6, hi⟩ := h
  have hsome : ((List.range' 1 (maxProcesses - 1)).find?
      fun i => (pcbs i).programId = 0).isSome := by
    rw [List.find?_isSome]
    refine ⟨i, ?_, by simpa using hi⟩
    rw [List.mem_range'_1, maxProcesses]
    omega
  obtain ⟨j, hj⟩ := Option.isSome_iff_exists.mp hsome
  have hmem := List.mem_of_find?_eq_some hj
  rw [List.mem_range'_1, maxProcesses] at hmem
  have hfree := List.find?_some hj
  rw [findFreePcb, hj, Option.getD_some]
  exact ⟨by omega, by omega, by simpa using hfree⟩

theorem storeUser_cases {s s' : Kernel} {v n : ℕ} {src : ℕ → UInt8}
    (h : s.storeUser v src n = .ok s') : ∃ mem, s' = { s with phys := mem } := by
  unfold storeUser at h
  split at h
  · cases h
  · split at h
    · cases h
      exact ⟨_, rfl⟩
    · cases h

theorem copyFileImage_cases {img : FsImage} {buf fname : ℕ → UInt8} {s s' : Kernel}
    (h : s.copyFileImage img buf fname = .ok s') : ∃ mem, s' = { s with phys := mem } := by
  unfold copyFileImage at h
  split at h
  · cases h
  · exact storeUser_cases h

/-! ## The new process -/

/-- The PCB of the new process in slot `i`, linked to its parent. -/
def linkedPcb (s : Kernel) (i : ℕ) : Pcb :=
  { initPcb (s.pcbs i) i s.tty.currTerminal with parentId := s.top }

/-- The state after the new process in slot `i` was counted, initialised and linked. -/
def pushed (s : Kernel) (i : ℕ) : Kernel :=
  { s with
    processNumber := inc32 s.processNumber
    pcbs := Function.update s.pcbs i (s.linkedPcb i)
    terminalInfo := Function.update s.terminalInfo s.tty.currTerminal
      ⟨i, inc32 (s.terminalInfo s.tty.currTerminal).numProcess⟩
    currentPcb := some i }

theorem procTable_pushed (s : Kernel) (i : ℕ) :
    (s.pushed i).procTable = s.procTable.push s.tty.currTerminal i := by
  ext1
  · funext j
    by_cases hj : j = i <;> simp [procTable, pushed, ProcTable.push, linkedPcb, initPcb, hj]
  · funext j
    by_cases hj : j = i <;> simp [procTable, pushed, ProcTable.push, linkedPcb, hj, top]
  · rfl
  · rfl

theorem spawn_findFreePcb {s : Kernel} {σ : TerminalId → List ℕ} (h : s.Ready σ)
    (hn : s.processNumber < 6) :
    s.spawn = .ok (findFreePcb s.pcbs, s.pushed (findFreePcb s.pcbs)) := by
  obtain ⟨h1, h6, hfree⟩ := findFreePcb_spec s.pcbs (h.stacked.exists_free hn)
  have hlt : findFreePcb s.pcbs < maxProcesses := by rw [maxProcesses]; omega
  have htop : (s.pcbs s.top).programId = s.top := h.stacked.programId_top s.tty.currTerminal
  rw [spawn, if_pos hlt]
  rcases h.current with hc | ⟨hc, h0⟩
  · have hne : s.top ≠ findFreePcb s.pcbs := by
      intro heq
      rw [← heq] at hfree
      omega
    by_cases hz : s.top = 0
    · simp [hc, hz, pcbInit, setPcb, pushed, linkedPcb]
    · simp [hc, hz, pcbInit, setPcb, pushed, linkedPcb, hne, htop]
  · simp [hc, h0, pcbInit, setPcb, pushed, linkedPcb, initPcb]

theorem spawn_eq {s : Kernel} {σ : TerminalId → List ℕ} (h : s.Ready σ)
    (hn : s.processNumber < 6) :
    ∃ i, 1 ≤ i ∧ i ≤ 6 ∧ (s.pcbs i).programId = 0 ∧ s.spawn = .ok (i, s.pushed i) := by
  obtain ⟨h1, h6, hfree⟩ := findFreePcb_spec s.pcbs (h.stacked.exists_free hn)
  exact ⟨findFreePcb s.pcbs, h1, h6, hfree, spawn_findFreePcb h hn⟩

/-- The state after the process in slot `i` was taken back, its PCB having been `p`. -/
def withdrawn (s : Kernel) (i : ℕ) (y : Tty) (p : Pcb) : Kernel :=
  { s with tty := y, pcbs := Function.update s.pcbs i (wipePcb p), currentPcb := some s.top }

/-- Taking back the process just pushed. The parent number stored in the PCB is the
old top of the terminal, and the counters return to their old values. -/
theorem pcbDestroy_pushed {s : Kernel} {σ : TerminalId → List ℕ} (h : Stacked s.procTable σ)
    (i : ℕ) (y : Tty) (hy : y.currTerminal = s.tty.currTerminal) (p : Pcb)
    (hp : p.parentId = s.top) :
    pcbDestroy { s.pushed i with tty := y, pcbs := Function.update s.pcbs i p } i =
      s.withdrawn i y p := by
  have hn : s.processNumber ≤ 6 := h.processNumber_le
  have hlen := h.length_le s.tty.currTerminal
  have hnum : (s.terminalInfo s.tty.currTerminal).numProcess = (σ s.tty.currTerminal).length :=
    h.length_eq s.tty.currTerminal
  have hinfo : (⟨s.top, (s.terminalInfo s.tty.currTerminal).numProcess⟩ : TerminalInfo) =
      s.terminalInfo s.tty.currTerminal := rfl
  have h1 : dec32 (inc32 s.processNumber) = s.processNumber := dec32_inc32 (by omega)
  have h2 : dec32 (inc32 (s.terminalInfo s.tty.currTerminal).numProcess) =
      (s.terminalInfo s.tty.currTerminal).numProcess := dec32_inc32 (by omega)
  simp [pcbDestroy, setPcb, pushed, withdrawn, hy, hp, h1, h2, hinfo]

/-! ## The possible results -/

/-- The PCB of the process in slot `i` with the name and arguments of its command. -/
def commandPcb (s : Kernel) (i : ℕ) (name args : ℕ → UInt8) : Pcb :=
  { s.linkedPcb i with cmdName := name, cmdArgs := args }

/-- The state in which the program in slot `i` starts. -/
def launched (m : Machine) (fr : StackFrame) (s : Kernel) (i : ℕ) (name args : ℕ → UInt8)
    (mem : ℕ → UInt8) : Kernel :=
  { s.pushed i with
    pcbs := Function.update s.pcbs i
      { s.commandPcb i name args with esp := fr.esp, ebp := fr.ebp }
    paging := { s.paging.setDirectory (i - 1) (fun k => if k < entries then
        Paging.taskDirectory m (i - 1) k else s.paging.pageDirectories (i - 1) k) with
      cr3 := i - 1 }
    phys := mem
    tssEsp0 := getKernelStackPtr i }

/-- The terminals after a command was rejected; only NULL has a message. -/
def rejectTty (s : Kernel) (command : Option (List UInt8)) : Tty :=
  if command.isNone then s.tty.printText emptyMessage else s.tty

theorem rejectTty_currTerminal (s : Kernel) (command : Option (List UInt8)) :
    (s.rejectTty command).currTerminal = s.tty.currTerminal := by
  unfold rejectTty
  split
  · exact Tty.printText_currTerminal ..
  · rfl

/-- The states in which `execute` can leave the kernel. -/
inductive ExecuteResult (m : Machine) (fr : StackFrame) (command : Option (List UInt8))
    (s : Kernel) : ExecOutcome → Kernel → Prop where
  | limit (hn : s.processNumber = 6) (y : Tty) (hy : y = s.tty.printText limitMessage) :
      ExecuteResult m fr command s (.returned 0) { s with tty := y }
  | failed (hn : s.processNumber < 6) (i : ℕ) (h1 : 1 ≤ i) (h6 : i ≤ 6)
      (hfree : (s.pcbs i).programId = 0) (name args : ℕ → UInt8)
      (y : Tty) (hy : y = s.rejectTty command) :
      ExecuteResult m fr command s (.returned (-1)) (s.withdrawn i y (s.commandPcb i name args))
  | started (hn : s.processNumber < 6) (i : ℕ) (h1 : 1 ≤ i) (h6 : i ≤ 6)
      (hfree : (s.pcbs i).programId = 0) (name args : ℕ → UInt8) (mem : ℕ → UInt8) (entry : ℕ) :
      ExecuteResult m fr command s (.started entry) (s.launched m fr i name args mem)

theorem launch_cases {m : Machine} {fr : StackFrame} {s s' : Kernel} {i entry : ℕ}
    {name args : ℕ → UInt8} {o : ExecOutcome} (h1 : 1 ≤ i) (h6 : i ≤ 6)
    (hx : launch m fr { s.pushed i with
      pcbs := Function.update s.pcbs i (s.commandPcb i name args) } i entry = .ok (o, s')) :
    ∃ mem, o = .started entry ∧ s' = s.launched m fr i name args mem := by
  have hd : dec32 i = i - 1 := dec32_of_pos h1 (by omega)
  have hlt : i - 1 < maxTasks := by rw [maxTasks]; omega
  have hcur : curPcb { s.pushed i with
      pcbs := Function.update s.pcbs i (s.commandPcb i name args) } =
      s.commandPcb i name args := by
    simp [curPcb, cur, pushed]
  have hid : (s.commandPcb i name args).programId = i := rfl
  rw [launch, hcur, hid, hd] at hx
  obtain ⟨p, hp, hx⟩ := bind_eq_ok.mp hx
  rw [pushed, Paging.newTaskPd_eq m _ hlt] at hp
  cases hp
  obtain ⟨s₂, hs₂, hx⟩ := bind_eq_ok.mp hx
  obtain ⟨mem, rfl⟩ := copyFileImage_cases hs₂
  cases hx
  refine ⟨mem, rfl, ?_⟩
  simp [launched, setPcb, pushed, commandPcb, linkedPcb, initPcb]

theorem loadCommand_pushed {σ : TerminalId → List ℕ} {s : Kernel} (h : Stacked s.procTable σ)
    (m : Machine) (fr : StackFrame) (i : ℕ) (command : Option (List UInt8)) :
    loadCommand m fr (s.pushed i) i command =
      match checkCommand command with
      | none => .ok (.returned (-1), s.withdrawn i (s.rejectTty command) (s.linkedPcb i))
      | some (name, args) =>
        if name.length < maxCmdLength ∧ args.length < maxCmdLength then
          match checkExecutable m.image fr.elfHeader (storeString (s.pcbs i).cmdName name) with
          | none => .ok (.returned (-1), s.withdrawn i s.tty (s.commandPcb i
              (storeString (s.pcbs i).cmdName name) (storeString (s.pcbs i).cmdArgs args)))
          | some entry => launch m fr { s.pushed i with
              pcbs := Function.update s.pcbs i (s.commandPcb i
                (storeString (s.pcbs i).cmdName name) (storeString (s.pcbs i).cmdArgs args)) }
              i entry
        else .error .fault := by
  have hself : (s.pushed i).pcbs i = s.linkedPcb i := by simp [pushed]
  unfold loadCommand
  cases checkCommand command with
  | none =>
    have hdestroy := pcbDestroy_pushed h i (s.rejectTty command)
      (s.rejectTty_currTerminal command) (s.linkedPcb i) rfl
    rw [← hdestroy]
    cases command <;> rfl
  | some parts =>
    obtain ⟨name, args⟩ := parts
    have hset : (s.pushed i).setPcb i { (s.pushed i).pcbs i with
          cmdName := storeString ((s.pushed i).pcbs i).cmdName name
          cmdArgs := storeString ((s.pushed i).pcbs i).cmdArgs args } =
        { s.pushed i with pcbs := Function.update s.pcbs i (s.commandPcb i
          (storeString (s.pcbs i).cmdName name) (storeString (s.pcbs i).cmdArgs args)) } := by
      rw [hself]
      simp [setPcb, pushed, commandPcb, linkedPcb, initPcb]
    have hdestroy := pcbDestroy_pushed h i s.tty rfl (s.commandPcb i
      (storeString (s.pcbs i).cmdName name) (storeString (s.pcbs i).cmdArgs args)) rfl
    simp only [hset, Function.update_self]
    rw [← hdestroy]
    rfl

theorem execute_cases {m : Machine} {fr : StackFrame} {s s' : Kernel}
    {σ : TerminalId → List ℕ} {command : Option (List UInt8)} {o : ExecOutcome}
    (h : s.Ready σ) (hx : s.execute m fr command = .ok (o, s')) :
    ExecuteResult m fr command s o s' := by
  have hle : s.processNumber ≤ 6 := h.stacked.processNumber_le
  have hinc : inc32 s.processNumber = s.processNumber + 1 := inc32_of_lt (by omega)
  rw [execute, hinc, maxProcesses] at hx
  by_cases hn : s.processNumber = 6
  · rw [if_pos (by omega)] at hx
    cases hx
    exact .limit hn _ rfl
  have hlt : s.processNumber < 6 := by omega
  rw [if_neg (by omega)] at hx
  obtain ⟨i, h1, h6, hfree, hspawn⟩ := spawn_eq h hlt
  rw [hspawn] at hx
  change loadCommand m fr (s.pushed i) i command = .ok (o, s') at hx
  rw [loadCommand_pushed h.stacked] at hx
  cases hcmd : checkCommand command with
  | none =>
    simp only [hcmd] at hx
    cases hx
    exact .failed hlt i h1 h6 hfree (s.pcbs i).cmdName (s.pcbs i).cmdArgs _ rfl
  | some parts =>
    obtain ⟨name, args⟩ := parts
    simp only [hcmd] at hx
    have hcommand : s.rejectTty command = s.tty := by
      cases command with
      | none => cases hcmd
      | some l => rfl
    split at hx
    · split at hx
      · cases hx
        exact .failed hlt i h1 h6 hfree _ _ s.tty hcommand.symm
      · obtain ⟨mem, rfl, rfl⟩ := launch_cases h1 h6 hx
        exact .started hlt i h1 h6 hfree _ _ mem _
    · cases hx

/-- The new process takes the first free slot. -/
theorem cur_of_started {m : Machine} {fr : StackFrame} {s s' : Kernel} {σ : TerminalId → List ℕ}
    {command : Option (List UInt8)} {entry : ℕ} (h : s.Ready σ)
    (hx : s.execute m fr command = .ok (.started entry, s')) : s'.cur = findFreePcb s.pcbs := by
  have hn : s.processNumber < 6 := by
    cases execute_cases h hx with
    | started hn => exact hn
  obtain ⟨h1, h6, -⟩ := findFreePcb_spec s.pcbs (h.stacked.exists_free hn)
  rw [execute, inc32_of_lt (by omega), maxProcesses, if_neg (by omega), spawn_findFreePcb h hn] at hx
  change loadCommand m fr (s.pushed (findFreePcb s.pcbs)) (findFreePcb s.pcbs) command =
    .ok (.started entry, s') at hx
  rw [loadCommand_pushed h.stacked] at hx
  split at hx
  · cases hx
  · split at hx
    · split at hx
      · cases hx
      · obtain ⟨mem, -, rfl⟩ := launch_cases h1 h6 hx
        rfl
    · cases hx

/-! ## The stacks afterwards -/

variable {s : Kernel} {σ : TerminalId → List ℕ}

theorem Ready.withTty (h : s.Ready σ) (y : Tty) (hy : y.currTerminal = s.tty.currTerminal) :
    Ready { s with tty := y } σ := by
  refine ⟨h.stacked, ?_⟩
  have hcurrent := h.current
  rw [top] at hcurrent ⊢
  dsimp only
  rwa [hy]

theorem procTable_withdrawn (h : Stacked s.procTable σ) {i : ℕ} (h6 : i ≤ 6)
    (hfree : (s.pcbs i).programId = 0) (y : Tty) (p : Pcb) :
    (s.withdrawn i y p).procTable = s.procTable := by
  have hdead := h.free_of_not_mem i h6 (h.not_mem_of_free hfree)
  ext1
  · funext j
    by_cases hj : j = i
    · subst hj
      simpa [procTable, withdrawn, wipePcb] using hdead.1.symm
    · simp [procTable, withdrawn, hj]
  · funext j
    by_cases hj : j = i
    · subst hj
      simpa [procTable, withdrawn, wipePcb] using hdead.2.symm
    · simp [procTable, withdrawn, hj]
  · rfl
  · rfl

theorem Ready.withdrawn (h : s.Ready σ) {i : ℕ} (h6 : i ≤ 6) (hfree : (s.pcbs i).programId = 0)
    (y : Tty) (hy : y.currTerminal = s.tty.currTerminal) (p : Pcb) :
    (s.withdrawn i y p).Ready σ := by
  refine ⟨?_, Or.inl ?_⟩
  · rw [procTable_withdrawn h.stacked h6 hfree]
    exact h.stacked
  · simp only [Kernel.withdrawn, top, hy]

theorem procTable_launched (m : Machine) (fr : StackFrame) (s : Kernel) (i : ℕ)
    (name args mem : ℕ → UInt8) :
    (s.launched m fr i name args mem).procTable = s.procTable.push s.tty.currTerminal i := by
  rw [← procTable_pushed]
  ext1
  · funext j
    by_cases hj : j = i <;> simp [procTable, launched, pushed, commandPcb, hj]
  · funext j
    by_cases hj : j = i <;> simp [procTable, launched, pushed, commandPcb, hj]
  · simp only [procTable, launched]
  · simp only [procTable, launched]

theorem Ready.launched (h : s.Ready σ) {i : ℕ} (h1 : 1 ≤ i) (h6 : i ≤ 6)
    (hfree : (s.pcbs i).programId = 0) (m : Machine) (fr : StackFrame) (name args mem : ℕ → UInt8) :
    (s.launched m fr i name args mem).Ready
      (Function.update σ s.tty.currTerminal (i :: σ s.tty.currTerminal)) := by
  refine ⟨?_, Or.inl ?_⟩
  · rw [procTable_launched]
    exact h.stacked.push s.tty.currTerminal h1 h6 hfree
  · simp [Kernel.launched, pushed, top]

end KudOS.Kernel
