import KudOS.ProcessNesting
import KudOS.ProtectedMode

/-!
# A new process in a used slot

`pcb_init` leaves the descriptors 2 to 7 of its slot as it finds them, and
`pcb_destroy` does not clear them. That a new process has no open file rests on the
state of the dead slots: `halt` closes every descriptor on both of its paths before it
gives up the slot, and a failed `execute` opens none.
-/

namespace KudOS.Kernel

open TwoLevel

variable {m : Machine} {fr : StackFrame} {s s' : Kernel} {σ : TerminalId → List ℕ}

/-- The current process has nothing but its terminal, and its directory nothing but the
low table, the kernel page and the page of its program. -/
structure Fresh (m : Machine) (s : Kernel) : Prop where
  stdin : (s.curPcb.fileArray 0).fileOps = some .stdinOps ∧
    (s.curPcb.fileArray 0).flags = fileInUse
  stdout : (s.curPcb.fileArray 1).fileOps = some .stdoutOps ∧
    (s.curPcb.fileArray 1).flags = fileInUse
  others : ∀ fd, 2 ≤ fd → fd ≤ 7 → (s.curPcb.fileArray fd).flags = fileNotInUse ∧
    (s.curPcb.fileArray fd).fileOps = none
  directory : ∀ k < entries, Present (s.paging.pageDirectories (s.curPcb.programId - 1) k) ↔
    k = videoOffset ∨ k = kernelOffset ∨ k = programOffset

/-- The states of a run in which `execute` has just started a process: called by `entry`,
by a process, by `halt` for the last process of a terminal, or by `switch_terminal` for
an empty terminal. -/
inductive JustStarted (m : Machine) : Kernel → Prop where
  | boot {s₀ s : Kernel} {fr : StackFrame} {entry : ℕ} (h₀ : BootState m s₀)
      (hx : s₀.execute m fr (some shellCommand) = .ok (.started entry, s)) : JustStarted m s
  | execute {s s' : Kernel} {fr : StackFrame} {command : Option (List UInt8)} {entry : ℕ}
      (h : Reachable m ByLive s) (hx : s.execute m fr command = .ok (.started entry, s')) :
      JustStarted m s'
  | halt {s s' : Kernel} {fr : StackFrame} {status : UInt8} {entry : ℕ}
      (h : Reachable m ByLive s) (hlive : s.Live s.cur)
      (hx : s.halt m fr status = .ok (.restarted entry, s')) : JustStarted m s'
  | switchTerminal {s s' : Kernel} {fr : StackFrame} {t : TerminalId}
      (h : Reachable m ByLive s) (hx : s.switchTerminal m fr t = .ok s')
      (hold : ¬ s.Live s'.cur) (hnew : s'.Live s'.cur) : JustStarted m s'

theorem or_attribute1_present (a : ℕ) : Present (a ||| attribute1) := by
  rw [Present, Nat.or_mod_two_eq_one]
  exact Or.inr rfl

/-- The directory that `new_task_pd` builds. -/
theorem taskDirectory_present (m : Machine) (d k : ℕ) :
    Present (Paging.taskDirectory m d k) ↔
      k = videoOffset ∨ k = kernelOffset ∨ k = programOffset := by
  unfold Paging.taskDirectory
  split
  · rename_i hk
    have hodd : Present (userPage8MB + d * fourMB) := by
      rw [Present, userPage8MB, fourMB]
      omega
    exact iff_of_true hodd (Or.inr (Or.inr hk))
  · rename_i hprog
    split
    · rename_i hk
      exact iff_of_true (by decide) (Or.inr (Or.inl hk))
    · rename_i hkern
      split
      · rename_i hk
        exact iff_of_true (or_attribute1_present _) (Or.inl hk)
      · rename_i hvid
        have hno : ¬ (k = videoOffset ∨ k = kernelOffset ∨ k = programOffset) := by
          rintro (h | h | h)
          · exact hvid h
          · exact hkern h
          · exact hprog h
        exact iff_of_false (by decide) hno

/-- What starts in a dead slot of a well-formed state is fresh. -/
theorem ExecuteResult.fresh {command : Option (List UInt8)} {entry : ℕ} (h : s.Wf σ)
    (hx : ExecuteResult m fr command s (.started entry) s') : s'.Fresh m := by
  cases hx with
  | started hn i h1 h6 hfree name args mem =>
    have hpcb : (s.launched m fr i name args mem).curPcb =
        { s.commandPcb i name args with esp := fr.esp, ebp := fr.ebp } := Function.update_self ..
    have hclean := (fdTable_initPcb ((h.pcb i h6).clean hfree) i s.tty.currTerminal).2
    refine ⟨?_, ?_, ?_, ?_⟩
    · rw [hpcb]
      exact ⟨rfl, rfl⟩
    · rw [hpcb]
      exact ⟨rfl, rfl⟩
    · intro fd h2 h7
      rw [hpcb]
      exact (hclean fd h2 h7).symm
    · intro k hk
      rw [hpcb]
      change Present ((s.paging.setDirectory (i - 1) _).pageDirectories (i - 1) k) ↔ _
      rw [Paging.setDirectory_self, if_pos hk]
      exact taskDirectory_present m (i - 1) k

/-- A switch that brings up a process which was not there has started it. -/
theorem SwitchResult.fresh {t : TerminalId} (h : s.Wf σ) (hx : SwitchResult m fr s σ t s')
    (hold : ¬ s.Live s'.cur) (hnew : s'.Live s'.cur) : s'.Fresh m := by
  cases hx with
  | same ht => exact absurd hnew hold
  | live ht j l hσ => exact absurd hnew hold
  | empty ht hσ o _ hexec =>
    cases o with
    | started entry => exact hexec.fresh (h.shown t)
    | returned v =>
      have htable := (hexec.unchanged (h.shown t)).1.procTable
      have hid : (s'.pcbs s'.cur).programId = (s.pcbs s'.cur).programId :=
        congrArg (fun c => c.programId s'.cur) htable
      rw [Live, hid] at hnew
      exact absurd hnew hold

/-- Whenever `execute` starts a process in a run, the process is fresh. -/
theorem started_process_fresh (h : JustStarted m s) : s.Fresh m := by
  cases h with
  | boot h₀ hx => exact (execute_cases h₀.wf.ready hx).fresh h₀.wf
  | execute h hx =>
    obtain ⟨σ, hs⟩ := h.sound
    exact (execute_cases hs.ready hx).fresh hs.toWf
  | halt h hlive hx =>
    obtain ⟨σ, hs⟩ := h.sound
    cases halt_cases hs.ready hlive (hs.toWf.files_cur hlive) hx with
    | restarted hσ fa hfa _ _ hexec => exact hexec.fresh (hs.toWf.popped hσ hfa)
  | switchTerminal h hx hold hnew =>
    obtain ⟨σ, hs⟩ := h.sound
    exact (switchTerminal_cases hs.ready hx).fresh hs.toWf hold hnew

theorem findFreePcb_congr {pcbs pcbs' : ℕ → Pcb}
    (h : ∀ i, (pcbs' i).programId = (pcbs i).programId) : findFreePcb pcbs' = findFreePcb pcbs := by
  simp only [findFreePcb, h]

/-- A shell that takes the slot of one that had a file open. -/
theorem second_shell_fresh : ∃ s s₁ s₂ s₃ s₄ : Kernel, ∃ entry, Excursion s s₁ s₂ s₃ ∧
    Reachable shellMachine ByLive s₃ ∧
    s₃.execute shellMachine blankFrame (some shellCommand) = .ok (.started entry, s₄) ∧
    s₄.cur = s₁.cur ∧ s₄.Fresh shellMachine := by
  obtain ⟨s, hs, hinst, hn⟩ := shellMachine_boots Ordinary
  obtain ⟨σ, hsound⟩ := hs.byLive.sound
  obtain ⟨s₁, s₂, s₃, hexc⟩ := excursion hsound hinst.live (by omega)
  have hs₃ := (hexc.reachable hs (by omega)).byLive
  obtain ⟨hk, hsound₃⟩ := hexc.activity.keeps σ hsound hinst.live
  have hn₃ : s₃.processNumber = s.processNumber := congrArg ProcTable.processNumber hk.procTable
  obtain ⟨entry, s₄, hx⟩ := execute_shell (m := shellMachine) blankFrame shellImage_hasShell
    hsound₃.ready (by omega)
  obtain ⟨entry₁, hx₁⟩ := hexc.starts
  refine ⟨s, s₁, s₂, s₃, s₄, entry, hexc, hs₃, hx, ?_, started_process_fresh (.execute hs₃ hx)⟩
  rw [cur_of_started hsound₃.ready hx, cur_of_started hsound.ready hx₁]
  exact findFreePcb_congr fun i => congrArg (fun c => c.programId i) hk.procTable

end KudOS.Kernel
