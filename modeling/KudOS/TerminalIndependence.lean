import KudOS.ShellStart
import KudOS.TerminalBounds

/-!
# Three independent terminals

All operations act on the one video page, the entries of the active terminal and the rows
of one array. While no Backspace meets a newline before the last character of its line,
every terminal ends as if it were alone and had only received the operations performed
while it was active. After such a Backspace the length is 65535, and printing the line
goes on in the rows of the other terminals.
-/

namespace KudOS

open Focus

/-- Terminal `t` ends in `s'` as it does when it is alone: `y` is any state in which `t` is
active and starts out as in `s`, and on `y` only the operations of the run are performed
that were performed while `t` was active. -/
def Tty.Independent (s s' : Tty) (log : List TermEvent) (t : TerminalId) : Prop :=
  ∀ y : Tty, y.currTerminal = t → y.attrib = s.attrib → y.view t = s.view t →
    s'.view t = ((own t s.currTerminal log).foldl (fun y f => f y) y).view t

/-- Backspace is not used in a line with a newline before its last character. -/
def TermOp.Safe (y : Tty) (o : TermOp) : Prop := (ScreenOp.op o).Safe y

theorem Tty.AllInBounds.op {y : Tty} (h : y.AllInBounds) {o : TermOp} (ho : o.Safe y) :
    (o.apply y).AllInBounds :=
  h.apply (o.localAt_apply h.bounded.len_le) ((ScreenOp.op o).bounded h.bounded ho)

namespace Kernel

variable {m : Machine} {s s' : Kernel}

/-- The runs of operations that meet `ok` and of switches, with the list of what they did
to the terminals. Between two of them the rest of the kernel may change. -/
inductive TermRun (m : Machine) (ok : Tty → TermOp → Prop) (s : Kernel) :
    List TermEvent → Kernel → Prop where
  | start : TermRun m ok s [] s
  | op {log : List TermEvent} {s₁ : Kernel} (h : TermRun m ok s log s₁) (o : TermOp)
      (ho : ok s₁.tty o) : TermRun m ok s (log ++ [.op o.apply]) (s₁.onTty o.apply)
  | switchTerminal {log : List TermEvent} {s₁ s₂ : Kernel} {fr : StackFrame} {t : TerminalId}
      (h : TermRun m ok s log s₁) (hx : s₁.switchTerminal m fr t = .ok s₂) :
      TermRun m ok s (log ++ s₁.switchEvents t) s₂
  | rest {log : List TermEvent} {s₁ s₂ : Kernel} (h : TermRun m ok s log s₁)
      (htty : s₂.tty = s₁.tty) : TermRun m ok s log s₂

variable {ok : Tty → TermOp → Prop} {log : List TermEvent}

theorem TermRun.tty_eq (h : TermRun m ok s log s') :
    s'.tty = log.foldl (Event.apply Tty.switchScreen) s.tty := by
  induction h with
  | start => rfl
  | op _ o _ ih =>
    rw [List.foldl_append, ← ih]
    rfl
  | switchTerminal _ hx ih => rw [List.foldl_append, ← ih, switchTerminal_tty hx]
  | rest _ htty ih => rw [htty, ih]

theorem localRun_text (text : List UInt8) (y : Tty) :
    Tty.focus.LocalRun Tty.switchScreen y (text.map fun c => .op (TermOp.putch c).apply) := by
  induction text generalizing y with
  | nil => trivial
  | cons c text ih => exact ⟨Tty.local_putch c y, ih _⟩

theorem switchEvents_localRun (s : Kernel) (t : TerminalId) :
    Tty.focus.LocalRun Tty.switchScreen s.tty (s.switchEvents t) := by
  rw [switchEvents]
  split
  · trivial
  · change Tty.focus.LocalRun Tty.switchScreen (s.tty.switchScreen t) _
    split
    · exact localRun_text limitMessage _
    · trivial

/-- No operation of the run leaves the row of its terminal. -/
theorem TermRun.local (hin : s.tty.AllInBounds) (h : TermRun m TermOp.Safe s log s') :
    s'.tty.AllInBounds ∧ Tty.focus.LocalRun Tty.switchScreen s.tty log := by
  induction h with
  | start => exact ⟨hin, trivial⟩
  | op hrun o ho ih =>
    obtain ⟨hin₁, hlocal⟩ := ih
    refine ⟨hin₁.op ho, localRun_append.mpr ⟨hlocal, ?_⟩⟩
    rw [← hrun.tty_eq]
    exact ⟨o.localAt_apply hin₁.bounded.len_le, trivial⟩
  | switchTerminal hrun hx ih =>
    obtain ⟨hin₁, hlocal⟩ := ih
    refine ⟨switchTerminal_keeps (fun h => h.switchScreen _) Tty.AllInBounds.text hin₁ hx,
      localRun_append.mpr ⟨hlocal, ?_⟩⟩
    rw [← hrun.tty_eq]
    exact switchEvents_localRun _ _
  | rest _ htty ih =>
    rw [htty]
    exact ih

/-- In every run after `terminal_open` in which no Backspace meets a newline before the
last character of its line, every terminal ends as it does when it is alone. -/
theorem terminals_independent {s₀ : Kernel} (h₀ : ∀ t, s₀.tty.bufferLen t = 0)
    (h : TermRun m TermOp.Safe (s₀.onTty Tty.terminalOpen) log s') (t : TerminalId) :
    (s₀.onTty Tty.terminalOpen).tty.Independent s'.tty log t := by
  intro y hactive hattrib hview
  obtain ⟨-, hlocal⟩ := h.local (Tty.allInBounds_terminalOpen h₀)
  rw [h.tty_eq]
  exact view_run Tty.switches_switchScreen hlocal t hactive hattrib hview

/-! ## A visit to the second terminal -/

/-- Every operation meets `ok` in the state in which it is performed. -/
def OpsMeet (ok : Tty → TermOp → Prop) : Tty → List TermOp → Prop
  | _, [] => True
  | y, o :: ops => ok y o ∧ OpsMeet ok (o.apply y) ops

def opEvents (ops : List TermOp) : List TermEvent := ops.map fun o => .op o.apply

variable {σ : TerminalId → List ℕ} {s₁ : Kernel}

theorem TermRun.ops (h : TermRun m ok s log s₁) (hs : s₁.Sound σ) {ops : List TermOp}
    (hops : OpsMeet ok s₁.tty ops) :
    ∃ s₂, TermRun m ok s (log ++ opEvents ops) s₂ ∧ s₂.Sound σ ∧
      s₂.processNumber = s₁.processNumber ∧
      s₂.tty = ops.foldl (fun y o => o.apply y) s₁.tty := by
  induction ops generalizing log s₁ with
  | nil => exact ⟨s₁, by rwa [opEvents, List.map_nil, List.append_nil], hs, rfl, rfl⟩
  | cons o ops ih =>
    have hstep := h.op o hops.1
    have hsound : (s₁.onTty o.apply).Sound σ := hs.interrupt (o.currTerminal_apply s₁.tty)
    obtain ⟨s₂, hrun, hs₂, hn, htty⟩ := ih hstep hsound hops.2
    rw [List.append_assoc] at hrun
    exact ⟨s₂, hrun, hs₂, hn, htty⟩

/-- A switch to another terminal, with room for the shell that it may have to start. -/
theorem TermRun.switch (himg : m.image.HasShell) (h : TermRun m ok s log s₁) (hs : s₁.Sound σ)
    (hn : s₁.processNumber < 6) {t : TerminalId} (ht : t ≠ s₁.tty.currTerminal) :
    ∃ s₂ σ', TermRun m ok s (log ++ [.switch t]) s₂ ∧ s₂.Sound σ' ∧
      s₂.processNumber ≤ s₁.processNumber + 1 ∧ s₂.tty = s₁.tty.switchScreen t := by
  obtain ⟨s₂, hx⟩ := switchTerminal_ok blankFrame himg hs.toWf t
  have hinc : inc32 s₁.processNumber = s₁.processNumber + 1 := inc32_of_lt (by omega)
  have hlog : s₁.switchEvents t = [.switch t] := by
    rw [switchEvents, if_neg ht, if_neg]
    rw [hinc, maxProcesses]
    omega
  have hrun := h.switchTerminal hx
  have htty := switchTerminal_tty hx
  rw [hlog] at hrun htty
  have hcases := switchTerminal_cases hs.ready hx
  obtain ⟨σ', hs₂⟩ := hs.switch hcases
  refine ⟨s₂, σ', hrun, hs₂, ?_, htty⟩
  cases hcases with
  | same _ => exact Nat.le_succ _
  | live _ j l _ => exact Nat.le_succ _
  | empty _ _ o _ hexec =>
    cases hexec with
    | limit => exact Nat.le_succ _
    | failed => exact Nat.le_succ _
    | started => exact hinc.le

/-- The kernel when `entry` has opened the terminals. -/
def openKernel : Kernel := bootKernel.onTty Tty.terminalOpen

def visit (a b c : List TermOp) : List TermEvent :=
  opEvents a ++ [.switch terminal2] ++ opEvents b ++ [.switch terminal1] ++ opEvents c

/-- The first terminal is in use, then the second one, and then the first one again. -/
theorem visit_runs {a b c : List TermOp} {y₀ y₁ y₂ : Tty}
    (h₀ : openKernel.tty = y₀) (ha : OpsMeet ok y₀ a)
    (h₁ : (a.foldl (fun y o => o.apply y) y₀).switchScreen terminal2 = y₁) (hb : OpsMeet ok y₁ b)
    (h₂ : (b.foldl (fun y o => o.apply y) y₁).switchScreen terminal1 = y₂) (hc : OpsMeet ok y₂ c) :
    ∃ s', TermRun shellMachine ok openKernel (visit a b c) s' := by
  have hboot : BootState shellMachine openKernel :=
    ⟨rfl, rfl, rfl, rfl, rfl, rfl⟩
  obtain ⟨entry, s₁, hx⟩ := execute_shell (m := shellMachine) blankFrame shellImage_hasShell
    hboot.wf.ready (by decide)
  have hexec := execute_cases hboot.wf.ready hx
  obtain ⟨σ₁, hwf₁⟩ := hboot.wf.execute hexec
  have hs₁ : s₁.Sound σ₁ := ⟨hwf₁, hexec.current_started, fun _ => hexec.installed⟩
  have htty₁ := execute_shell_tty hx
  rw [if_neg (by decide)] at htty₁
  have hn₁ : s₁.processNumber = 1 := by
    cases hexec with
    | started => rfl
  have hrun : TermRun shellMachine ok openKernel [] s₁ :=
    .rest .start htty₁
  rw [← h₀, ← htty₁] at ha
  obtain ⟨s₂, hrun₂, hs₂, hn₂, htty₂⟩ := hrun.ops hs₁ ha
  have hcur₂ : s₂.tty.currTerminal = terminal1 := by
    rw [htty₂, TermOp.foldl_currTerminal, htty₁]
    rfl
  obtain ⟨s₃, σ₃, hrun₃, hs₃, hn₃, htty₃⟩ :=
    hrun₂.switch shellImage_hasShell hs₂ (by omega) (t := terminal2) (by rw [hcur₂]; decide)
  rw [htty₂, htty₁, h₀, h₁] at htty₃
  rw [← htty₃] at hb
  obtain ⟨s₄, hrun₄, hs₄, hn₄, htty₄⟩ := hrun₃.ops hs₃ hb
  have hcur₄ : s₄.tty.currTerminal = terminal2 := by
    rw [htty₄, TermOp.foldl_currTerminal, htty₃, ← h₁]
    rfl
  obtain ⟨s₅, σ₅, hrun₅, hs₅, -, htty₅⟩ :=
    hrun₄.switch shellImage_hasShell hs₄ (by omega) (t := terminal1) (by rw [hcur₄]; decide)
  rw [htty₄, htty₃, h₂] at htty₅
  rw [← htty₅] at hc
  obtain ⟨s₆, hrun₆, -⟩ := hrun₅.ops hs₅ hc
  exact ⟨s₆, hrun₆⟩

/-- A letter is typed and erased before the visit, and printed after it. -/
theorem visited_terminal_independent : ∃ s', TermRun shellMachine TermOp.Safe
      openKernel (visit [.addToBuffer 97, .printBuffer, .backspace]
        [.terminalWrite (some fun _ => 66) 3] [.addToBuffer 98, .printBuffer]) s' ∧
    ∀ t, openKernel.tty.Independent s'.tty
      (visit [.addToBuffer 97, .printBuffer, .backspace] [.terminalWrite (some fun _ => 66) 3]
        [.addToBuffer 98, .printBuffer]) t := by
  have hone : (((openKernel.tty.addToBuffer 97).printBuffer).curLen) = 1 := by
    decide +kernel
  have hsafe : TermOp.Safe ((openKernel.tty.addToBuffer 97).printBuffer)
      .backspace := by
    intro k hk
    omega
  have hvisit : ∃ s', TermRun shellMachine TermOp.Safe openKernel
      (visit [.addToBuffer 97, .printBuffer, .backspace] [.terminalWrite (some fun _ => 66) 3]
        [.addToBuffer 98, .printBuffer]) s' :=
    visit_runs rfl ⟨trivial, trivial, hsafe, trivial⟩ rfl ⟨trivial, trivial⟩ rfl
      ⟨trivial, trivial, trivial⟩
  obtain ⟨s', hrun⟩ := hvisit
  exact ⟨s', hrun, terminals_independent (fun _ => rfl) hrun⟩

/-! ## A line longer than its row -/

theorem opsMeet_true (ops : List TermOp) (y : Tty) : OpsMeet (fun _ _ => True) y ops := by
  induction ops generalizing y with
  | nil => trivial
  | cons o ops ih => exact ⟨trivial, ih _⟩

/-- A Backspace behind a newline; then the second terminal gets the line `c`, and the line
of the first terminal is printed. -/
def lateRun (c : UInt8) : List TermEvent :=
  visit [.addToBuffer newlineChar, .addToBuffer 97, .backspace]
    [.addToBuffer c, .addToBuffer newlineChar] [.printBuffer]

/-- The first terminal before its line is printed, when the second one was not used. -/
def lateTty : Tty :=
  ((openKernel.tty.addToBuffer newlineChar).addToBuffer 97).backspace

/-- All rows are blank, and so are the bytes behind them. -/
theorem lateTty_blank (k : ℕ) : lateTty.curBuffer k = 0 := by
  let y₀ := openKernel.tty
  by_cases hk : k < buffLen
  · have hrow : ∀ k < buffLen, lateTty.curBuffer k = 0 := by decide +kernel
    exact hrow k hk
  · have h₀ : y₀.Bounded := (Tty.allInBounds_terminalOpen fun _ => rfl).bounded
    have h₁ : (y₀.addToBuffer newlineChar).Bounded := h₀.addToBuffer newlineChar
    have h₂ : ((y₀.addToBuffer newlineChar).addToBuffer 97).Bounded := h₁.addToBuffer 97
    have hcur : y₀.curBuffer k = 0 := by
      have hstore := forLoop_store buffLen 0 (fun _ => (0 : UInt8)) (fun _ => 0)
      refine (congrFun hstore (0 + k)).trans ?_
      split <;> rfl
    have hk' := Nat.le_of_not_lt hk
    have hback := h₂.curBuffer_behind (.op .backspace) hk'
    have hchar := h₁.curBuffer_behind (.op (.addToBuffer 97)) hk'
    have hline := h₀.curBuffer_behind (.op (.addToBuffer newlineChar)) hk'
    exact hback.trans (hchar.trans (hline.trans hcur))

theorem printBuffer_blank {y : Tty} (h : ∀ k, y.curBuffer k = 0) :
    y.printBuffer = (y.setY y.curLineY).setX y.curLineBeginning := by
  have hloop : ∀ {y : Tty}, (∀ k, y.curBuffer k = 0) → ∀ n i, Tty.printLoop n i y = y := by
    intro y h n
    induction n with
    | zero => exact fun _ => rfl
    | succ n ih =>
      intro i
      rw [Tty.printLoop]
      split
      · rw [h]
        exact ih (i + 1)
      · rfl
  exact hloop (y := (y.setY y.curLineY).setX y.curLineBeginning) h _ 0

theorem lateRun_cell {c : UInt8} (hc : c ∈ [(88 : UInt8), 89]) {y : Tty}
    (hy : y = (lateRun c).foldl (Event.apply Tty.switchScreen)
      openKernel.tty) :
    (y.view terminal1).screen 80 = openKernel.tty.cell c := by
  have hcell : ∀ c ∈ [(88 : UInt8), 89],
      (((lateRun c).foldl (Event.apply Tty.switchScreen)
        openKernel.tty).view terminal1).screen 80 =
          openKernel.tty.cell c := by
    decide +kernel
  rw [hy]
  exact hcell c hc

theorem own_lateRun (c : UInt8) (y : Tty) :
    (own terminal1 terminal1 (lateRun c)).foldl (fun y f => f y) y =
      ((y.addToBuffer newlineChar).addToBuffer 97).backspace.printBuffer := rfl

theorem lateTty_printed : (lateTty.printBuffer.view terminal1).screen 80 =
    openKernel.tty.cell blankSpace := by
  rw [printBuffer_blank lateTty_blank]
  decide +kernel

theorem lateRun_shows {c : UInt8} (hc : c ∈ [(88 : UInt8), 89]) :
    ∃ s', TermRun shellMachine (fun _ _ => True) openKernel (lateRun c) s' ∧
      (s'.tty.view terminal1).screen 80 = openKernel.tty.cell c := by
  have hvisit : ∃ s', TermRun shellMachine (fun _ _ => True) openKernel (lateRun c) s' :=
    visit_runs rfl (opsMeet_true _ _) rfl (opsMeet_true _ _) rfl (opsMeet_true _ _)
  obtain ⟨s', hrun⟩ := hvisit
  exact ⟨s', hrun, lateRun_cell hc hrun.tty_eq⟩

/-- Alone, the first terminal prints nothing. -/
theorem not_independent_of_shows {c : UInt8} {s' : Kernel}
    (hcell : openKernel.tty.cell c ≠ openKernel.tty.cell blankSpace)
    (hshown : (s'.tty.view terminal1).screen 80 = openKernel.tty.cell c) :
    ¬ openKernel.tty.Independent s'.tty (lateRun c) terminal1 := by
  intro hind
  have hcur : openKernel.tty.currTerminal = terminal1 := rfl
  have halone := hind openKernel.tty rfl rfl rfl
  rw [hcur, own_lateRun] at halone
  have hblank := lateTty_printed
  rw [lateTty, ← halone, hshown] at hblank
  exact hcell hblank

/-- After the Backspace the first terminal prints the line of the second one: the runs with
`X` and with `Y` there are the same for the first terminal and show different screens. -/
theorem neighbour_row_printed : ∃ s₁ s₂,
    TermRun shellMachine (fun _ _ => True) openKernel (lateRun 88) s₁ ∧
    TermRun shellMachine (fun _ _ => True) openKernel (lateRun 89) s₂ ∧
    (s₁.tty.view terminal1).screen 80 = openKernel.tty.cell 88 ∧
    (s₂.tty.view terminal1).screen 80 = openKernel.tty.cell 89 ∧
    ¬ openKernel.tty.Independent s₁.tty (lateRun 88) terminal1 := by
  obtain ⟨s₁, hrun₁, hshown₁⟩ := lateRun_shows (c := 88) (by decide)
  obtain ⟨s₂, hrun₂, hshown₂⟩ := lateRun_shows (c := 89) (by decide)
  have hcell : openKernel.tty.cell 88 ≠ openKernel.tty.cell blankSpace := by decide +kernel
  exact ⟨s₁, s₂, hrun₁, hrun₂, hshown₁, hshown₂, not_independent_of_shows hcell hshown₁⟩

end Kernel
end KudOS
