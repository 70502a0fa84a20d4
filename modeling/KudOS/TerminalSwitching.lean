import KudOS.ShellStart

/-!
# What `switch_terminal` does to the terminals

The operations of `terminal.c`, and `switch_terminal` as events of the terminals: the
screens are exchanged, and a terminal without a process starts a shell, which prints only
at the process limit.
-/

namespace KudOS

open Focus

inductive TermOp where
  | putch (c : UInt8)
  | newLine (resetBuffer : Bool)
  | addToBuffer (c : UInt8)
  | clearBuffer
  | clearScreen
  | printBuffer
  | backspace
  | terminalWrite (buf : Option (ℕ → UInt8)) (count : ℤ)

def TermOp.apply : TermOp → Tty → Tty
  | .putch c, y => y.putch c
  | .newLine b, y => y.newLine b
  | .addToBuffer c, y => y.addToBuffer c
  | .clearBuffer, y => y.clearBuffer
  | .clearScreen, y => y.clearScreen
  | .printBuffer, y => y.printBuffer
  | .backspace, y => y.backspace
  | .terminalWrite buf count, y => (y.terminalWrite buf count).2

/-- Every operation on a line that fits its row is local. -/
theorem TermOp.localAt_apply {y : Tty} (h : y.curLen ≤ buffLen) (o : TermOp) :
    Tty.focus.LocalAt o.apply y := by
  cases o with
  | putch c => exact Tty.local_putch c y
  | newLine b => exact Tty.local_newLine b y
  | addToBuffer c => exact Tty.local_addToBuffer c y
  | clearBuffer => exact Tty.local_clearBuffer y
  | clearScreen => exact Tty.local_clearScreen y
  | printBuffer => exact Tty.localAt_printBuffer h
  | backspace => exact Tty.localAt_backspace h
  | terminalWrite buf count => exact Tty.local_terminalWrite buf count y

theorem TermOp.currTerminal_apply (o : TermOp) (y : Tty) :
    (o.apply y).currTerminal = y.currTerminal := by
  cases o with
  | putch c => exact (Tty.local_putch c y).active
  | newLine b => exact (Tty.local_newLine b y).active
  | addToBuffer c => exact (Tty.local_addToBuffer c y).active
  | clearBuffer => rfl
  | clearScreen => rfl
  | printBuffer => exact Tty.printBuffer_currTerminal y
  | backspace => exact Tty.backspace_currTerminal y
  | terminalWrite buf count => exact (Tty.local_terminalWrite buf count y).active

theorem TermOp.foldl_currTerminal (ops : List TermOp) (y : Tty) :
    (ops.foldl (fun y o => o.apply y) y).currTerminal = y.currTerminal := by
  induction ops generalizing y with
  | nil => rfl
  | cons o ops ih => exact (ih _).trans (o.currTerminal_apply y)

/-- What happens to the terminals: an operation, or a change of the active terminal. -/
abbrev TermEvent := Event Tty TerminalId

namespace Kernel

variable {m : Machine} {fr : StackFrame} {s s' : Kernel}

/-- What `switch_terminal` does to the terminals: nothing, if the terminal is already
active; otherwise the switch, and after it the message of `execute` if the terminal is
empty and no shell can be started. -/
def switchEvents (s : Kernel) (t : TerminalId) : List TermEvent :=
  if t = s.tty.currTerminal then []
  else .switch t ::
    if (s.shown t).curPcb.programId = 0 ∧ inc32 s.processNumber ≥ maxProcesses then
      limitMessage.map fun c => .op (TermOp.putch c).apply
    else []

theorem spawn_tty {i : ℕ} (h : s.spawn = .ok (i, s')) : s'.tty = s.tty := by
  unfold spawn at h
  dsimp only at h
  split at h
  · cases h
    split <;> split <;> rfl
  · cases h

theorem launch_tty {i entry : ℕ} {o : ExecOutcome} (h : s.launch m fr i entry = .ok (o, s')) :
    s'.tty = s.tty := by
  unfold launch at h
  obtain ⟨p, hp, h⟩ := bind_eq_ok.mp h
  obtain ⟨u, hu, h⟩ := bind_eq_ok.mp h
  obtain ⟨mem, rfl⟩ := copyFileImage_cases hu
  cases h
  rfl

/-- Starting the shell prints nothing unless the process limit is reached. -/
theorem execute_shell_tty {o : ExecOutcome}
    (h : s.execute m fr (some shellCommand) = .ok (o, s')) :
    s'.tty = if inc32 s.processNumber ≥ maxProcesses then s.tty.printText limitMessage
      else s.tty := by
  unfold execute at h
  split at h
  · cases h
    rw [if_pos ‹_›]
  · rw [if_neg ‹_›]
    obtain ⟨⟨i, u⟩, hspawn, h⟩ := bind_eq_ok.mp h
    rw [← spawn_tty hspawn]
    change u.loadCommand m fr i (some shellCommand) = _ at h
    simp only [loadCommand, checkCommand_shell] at h
    split at h
    · split at h
      · cases h
        rfl
      · have hset := launch_tty h
        exact hset
    · cases h

theorem switchTerminal_tty {t : TerminalId} (h : s.switchTerminal m fr t = .ok s') :
    s'.tty = (s.switchEvents t).foldl (Event.apply Tty.switchScreen) s.tty := by
  by_cases ht : t = s.tty.currTerminal
  · rw [switchTerminal, if_pos ht] at h
    cases h
    rw [switchEvents, if_pos ht]
    rfl
  have hprint : ∀ y : Tty, (limitMessage.map fun c => Event.op (TermOp.putch c).apply).foldl
      (Event.apply Tty.switchScreen) y = y.printText limitMessage := by
    intro y
    rw [List.foldl_map]
    rfl
  rw [switchTerminal_of_ne ht] at h
  rw [switchEvents, if_neg ht, List.foldl_cons]
  change _ = List.foldl _ (s.shown t).tty _
  by_cases hid : (s.shown t).curPcb.programId = 0
  · rw [if_pos hid] at h
    obtain ⟨⟨o, u⟩, hexec, hpure⟩ := bind_eq_ok.mp h
    cases hpure
    have htty := execute_shell_tty hexec
    change u.tty = if inc32 s.processNumber ≥ maxProcesses then _ else _ at htty
    by_cases hn : inc32 s.processNumber ≥ maxProcesses
    · rw [if_pos hn] at htty
      rw [if_pos ⟨hid, hn⟩, hprint, htty]
    · rw [if_neg hn] at htty
      rw [if_neg fun hc => hn hc.2, htty]
      rfl
  · rw [if_neg hid] at h
    obtain ⟨p, -, hpure⟩ := bind_eq_ok.mp h
    cases hpure
    rw [if_neg fun hc => hid hc.1]
    rfl

end Kernel
end KudOS
