import KudOS.KernelRuns
import KudOS.LineEditing
import KudOS.TerminalBounds

/-!
# Who writes the modifier flags

`ctrl_flag`, `alt_flag` and `cap_flag` are written by `keyboard_init` and by the keyboard
handler. Whatever else the kernel does, and whatever else the handler does, keeps them.
-/

namespace KudOS

/-- `ctrl_flag`, `alt_flag` and `cap_flag`. -/
@[ext] structure Modifiers where
  ctrl : Bool
  alt : Bool
  cap : Bool
  deriving DecidableEq, Repr

/-- What the handler makes of the flags for one scan code. -/
def Modifiers.handle (f : Modifiers) (sc : UInt8) : Modifiers :=
  if sc = lCtrl then { f with ctrl := true }
  else if sc = lAlt then { f with alt := true }
  else if sc = lCtrlRelease then { f with ctrl := false }
  else if sc = lAltRelease then { f with alt := !f.alt }
  else if sc ∈ toggleCodes then { f with cap := !f.cap }
  else f

namespace Tty

variable (y : Tty)

def modifiers : Modifiers := ⟨y.ctrlFlag, y.altFlag, y.capFlag⟩

/-! ## The terminal driver -/

@[simp] theorem modifiers_setX (v : ℤ) : (y.setX v).modifiers = y.modifiers := rfl
@[simp] theorem modifiers_setY (v : ℤ) : (y.setY v).modifiers = y.modifiers := rfl
@[simp] theorem modifiers_setLineY (v : ℤ) : (y.setLineY v).modifiers = y.modifiers := rfl
@[simp] theorem modifiers_setLineBeginning (v : ℤ) :
    (y.setLineBeginning v).modifiers = y.modifiers := rfl
@[simp] theorem modifiers_storeBuffer (i : ℕ) (c : UInt8) :
    (y.storeBuffer i c).modifiers = y.modifiers := rfl
@[simp] theorem modifiers_setLen (n : ℕ) : (y.setLen n).modifiers = y.modifiers := rfl
@[simp] theorem modifiers_moveCsr : y.moveCsr.modifiers = y.modifiers := rfl
@[simp] theorem modifiers_clearBuffer : y.clearBuffer.modifiers = y.modifiers := rfl
@[simp] theorem modifiers_video (v : Screen) :
    ({ y with video := v } : Tty).modifiers = y.modifiers := rfl

@[simp] theorem modifiers_scroll : y.scroll.modifiers = y.modifiers := by
  unfold scroll
  split <;> rfl

@[simp] theorem modifiers_putchTail : y.putchTail.modifiers = y.modifiers := by
  unfold putchTail
  split <;> simp

@[simp] theorem modifiers_newLine (resetBuffer : Bool) :
    (y.newLine resetBuffer).modifiers = y.modifiers := by
  cases resetBuffer <;> simp [newLine]

@[simp] theorem modifiers_addToBuffer (c : UInt8) :
    (y.addToBuffer c).modifiers = y.modifiers := by
  unfold addToBuffer
  split <;> rfl

@[simp] theorem modifiers_clearScreen : y.clearScreen.modifiers = y.modifiers := by
  simp [clearScreen]

@[simp] theorem modifiers_putch (c : UInt8) : (y.putch c).modifiers = y.modifiers := by
  unfold putch
  split
  · simp
  split
  · split <;> simp
  split
  · split
    · rfl
    · dsimp only
      split <;> simp
  · split <;> simp

@[simp] theorem modifiers_printLoop (n i : ℕ) (y : Tty) :
    (printLoop n i y).modifiers = y.modifiers := by
  induction n generalizing i y with
  | zero => rfl
  | succ n ih =>
    rw [printLoop]
    split
    · rw [ih, modifiers_putch]
    · rfl

@[simp] theorem modifiers_printBuffer : y.printBuffer.modifiers = y.modifiers := by
  simp [printBuffer]

@[simp] theorem modifiers_backspace : y.backspace.modifiers = y.modifiers := by
  unfold backspace
  split <;> simp

theorem modifiers_printText (text : List UInt8) :
    (y.printText text).modifiers = y.modifiers := by
  rw [printText]
  induction text generalizing y with
  | nil => rfl
  | cons c text ih => rw [List.foldl_cons, ih, modifiers_putch]

theorem modifiers_terminalWrite (buf : Option (ℕ → UInt8)) (count : ℤ) :
    (y.terminalWrite buf count).2.modifiers = y.modifiers := by
  cases buf with
  | none => rfl
  | some b =>
    have hloop : (forLoop count.toNat (fun i y => y.putch (b i)) y).modifiers = y.modifiers :=
      forLoop_induct (fun _ (u : Tty) => u.modifiers = y.modifiers) _ rfl fun i _ u hu =>
        (modifiers_putch u (b i)).trans hu
    simpa [terminalWrite] using hloop

variable {y}

theorem modifiers_terminalRead {y' : Tty} {count : ℤ} {out : List UInt8}
    (h : y.terminalRead count = .ok (out, y')) : y'.modifiers = y.modifiers := by
  unfold terminalRead at h
  split at h
  · cases h
    exact y.modifiers_newLine true
  · cases h

end Tty

namespace Kernel

variable {m : Machine} {fr : StackFrame} {s s' : Kernel}

/-! ## System calls -/

theorem loadCommand_modifiers {i : ℕ} {command : Option (List UInt8)} {o : ExecOutcome}
    (h : s.loadCommand m fr i command = .ok (o, s')) : s'.tty.modifiers = s.tty.modifiers := by
  unfold loadCommand at h
  generalize emptyMessage = text at h
  split at h
  · cases h
    cases command with
    | none => exact s.tty.modifiers_printText text
    | some c => rfl
  · split at h
    · dsimp only at h
      split at h
      · cases h
        rfl
      · have htty := launch_tty h
        exact congrArg Tty.modifiers htty
    · cases h

theorem execute_modifiers {command : Option (List UInt8)} {o : ExecOutcome}
    (h : s.execute m fr command = .ok (o, s')) : s'.tty.modifiers = s.tty.modifiers := by
  unfold execute at h
  generalize limitMessage = text at h
  split at h
  · cases h
    exact s.tty.modifiers_printText text
  · obtain ⟨⟨i, u⟩, hspawn, hload⟩ := bind_eq_ok.mp h
    rw [loadCommand_modifiers hload, spawn_tty hspawn]

theorem haltTail_modifiers {o : HaltOutcome} (h : s.haltTail m = .ok (o, s')) :
    s'.tty.modifiers = s.tty.modifiers := by
  unfold haltTail at h
  obtain ⟨u, hclose, h⟩ := bind_eq_ok.mp h
  obtain ⟨p, -, hpure⟩ := bind_eq_ok.mp h
  obtain ⟨fa, rfl⟩ := closeAll_frame hclose
  cases hpure
  rfl

/-- `halt`, in a process with a parent and in the last process of its terminal. -/
theorem halt_modifiers {status : UInt8} {o : HaltOutcome}
    (h : s.halt m fr status = .ok (o, s')) : s'.tty.modifiers = s.tty.modifiers := by
  unfold halt at h
  split at h
  · obtain ⟨u, hclose, h⟩ := bind_eq_ok.mp h
    obtain ⟨⟨o', u'⟩, hexec, h⟩ := bind_eq_ok.mp h
    obtain ⟨fa, rfl⟩ := closeAll_frame hclose
    have hexec' : u'.tty.modifiers = s.tty.modifiers := (execute_modifiers hexec).trans rfl
    cases o' with
    | started entry =>
      cases h
      exact hexec'
    | returned v => exact (haltTail_modifiers h).trans hexec'
  · exact haltTail_modifiers h

theorem switchTerminal_modifiers {t : TerminalId} (h : s.switchTerminal m fr t = .ok s') :
    s'.tty.modifiers = s.tty.modifiers :=
  switchTerminal_keeps (P := fun y => y.modifiers = s.tty.modifiers) (fun h => h)
    (fun h text => (Tty.modifiers_printText _ text).trans h) rfl h

theorem sysOpen_tty (m : Machine) (s : Kernel) (fname : ℕ → UInt8) :
    (s.sysOpen m fname).2.tty = s.tty := by
  unfold sysOpen openFile
  split
  · rfl
  · dsimp only
    split
    · rfl
    · split
      · rfl
      · split
        · rfl
        · split <;> rfl

theorem readFile_tty (img : FsImage) (s : Kernel) (fd : ℕ) (n : ℤ) :
    (s.readFile img fd n).2.tty = s.tty := by
  unfold readFile
  split
  · unfold readDir
    dsimp only
    split <;> rfl
  · rfl

theorem sysRead_modifiers {fd nbytes r : ℤ} {null : Bool} {out : List UInt8}
    (h : s.sysRead m fd null nbytes = .ok (r, out, s')) : s'.tty.modifiers = s.tty.modifiers := by
  rw [sysRead_eq] at h
  split at h
  · cases h
    rfl
  split at h
  · cases h
  · rename_i f _
    cases f with
    | terminalRead =>
      obtain ⟨⟨out', y⟩, hread, hpure⟩ := bind_eq_ok.mp h
      cases hpure
      exact Tty.modifiers_terminalRead hread
    | readFile =>
      cases h
      exact congrArg Tty.modifiers (readFile_tty m.image s fd.toNat nbytes)
    | rtcRead =>
      cases h
      rfl

theorem sysWrite_modifiers {fd nbytes r : ℤ} {buf : Option (ℕ → UInt8)}
    (h : s.sysWrite m fd buf nbytes = .ok (r, s')) : s'.tty.modifiers = s.tty.modifiers := by
  cases buf with
  | none =>
    rw [sysWrite_null] at h
    cases h
    rfl
  | some b =>
  rw [sysWrite_eq] at h
  split at h
  · cases h
    rfl
  split at h
  · cases h
  · rename_i f _
    cases f with
    | terminalWrite =>
      cases h
      exact s.tty.modifiers_terminalWrite (some b) nbytes
    | writeFile =>
      cases h
      rfl
    | rtcWrite =>
      change Except.ok (s.rtcWrite b) = _ at h
      unfold rtcWrite at h
      split at h <;> cases h <;> rfl

theorem fileOp_modifiers {op : FileOp} {r : ℤ} (h : op.apply m s = .ok (r, s')) :
    s'.tty.modifiers = s.tty.modifiers := by
  cases op with
  | «open» fname =>
    have hs : (s.sysOpen m fname).2 = s' := congrArg Prod.snd (Except.ok.inj h)
    rw [← hs, sysOpen_tty]
  | close fd =>
    obtain ⟨fa, rfl⟩ := sysClose_frame h
    rfl
  | read fd null nbytes =>
    obtain ⟨⟨r', out, u⟩, hread, hpure⟩ := bind_eq_ok.mp h
    cases hpure
    exact sysRead_modifiers hread
  | write fd buf nbytes => exact sysWrite_modifiers h

/-- The steps of a run that are not interrupts. -/
theorem step_modifiers {a : Step} (ha : ∀ y, a ≠ .interrupt y) (h : s.step m a = .ok s') :
    s'.tty.modifiers = s.tty.modifiers := by
  cases a with
  | execute fr command =>
    obtain ⟨⟨o, u⟩, hexec, hpure⟩ := bind_eq_ok.mp h
    cases hpure
    exact execute_modifiers hexec
  | halt fr status =>
    obtain ⟨⟨o, u⟩, hhalt, hpure⟩ := bind_eq_ok.mp h
    cases hpure
    exact halt_modifiers hhalt
  | switchTerminal fr t => exact switchTerminal_modifiers h
  | vidmap v =>
    obtain ⟨⟨r, u⟩, hvidmap, hpure⟩ := bind_eq_ok.mp h
    cases hpure
    rcases vidmap_cases hvidmap with rfl | ⟨p, mem, -, rfl⟩ <;> rfl
  | file op =>
    obtain ⟨⟨r, u⟩, hop, hpure⟩ := bind_eq_ok.mp h
    cases hpure
    exact fileOp_modifiers hop
  | interrupt y => exact absurd rfl (ha y)

/-! ## The keyboard handler -/

/-- The codes for which `keyboard_handler` writes none of the flags itself. -/
theorem keyboardHandler_keeps {sc : UInt8} (hctrl : sc ≠ lCtrl) (halt : sc ≠ lAlt)
    (hctrlUp : sc ≠ lCtrlRelease) (haltUp : sc ≠ lAltRelease) (htoggle : sc ∉ toggleCodes)
    (h : s.keyboardHandler m fr sc = .ok s') : s'.tty.modifiers = s.tty.modifiers := by
  simp only [toggleCodes, List.mem_cons, List.not_mem_nil, or_false, not_or] at htoggle
  obtain ⟨hl, hr, hcaps, hlUp, hrUp⟩ := htoggle
  rw [keyboardHandler] at h
  by_cases hle : sc ≤ keyRelease
  · rw [if_pos hle] at h
    by_cases hnl : keyAt m sc = newlineChar
    · rw [if_pos hnl] at h
      cases h
      exact s.tty.modifiers_addToBuffer newlineChar
    rw [if_neg hnl] at h
    by_cases hback : sc = backspaceCode
    · rw [if_pos hback] at h
      cases h
      exact (Tty.modifiers_printBuffer _).trans s.tty.modifiers_backspace
    rw [if_neg hback, if_neg hctrl, if_neg halt] at h
    by_cases h1 : s.tty.altFlag ∧ sc = keyF1
    · rw [if_pos h1] at h
      exact switchTerminal_modifiers h
    rw [if_neg h1] at h
    by_cases h2 : s.tty.altFlag ∧ sc = keyF2
    · rw [if_pos h2] at h
      exact switchTerminal_modifiers h
    rw [if_neg h2] at h
    by_cases h3 : s.tty.altFlag ∧ sc = keyF3
    · rw [if_pos h3] at h
      exact switchTerminal_modifiers h
    rw [if_neg h3] at h
    by_cases hclear : s.tty.ctrlFlag ∧ sc = lButton
    · rw [if_pos hclear] at h
      cases h
      exact (Tty.modifiers_printBuffer _).trans s.tty.modifiers_clearScreen
    rw [if_neg hclear] at h
    by_cases hhalt : s.tty.ctrlFlag ∧ sc = cButton
    · rw [if_pos hhalt] at h
      obtain ⟨⟨o, u⟩, hhalt, hpure⟩ := bind_eq_ok.mp h
      cases hpure
      exact halt_modifiers hhalt
    rw [if_neg hhalt, if_neg (not_or.mpr ⟨hl, hr⟩), if_neg hcaps] at h
    by_cases hcap : s.tty.capFlag
    · rw [if_pos hcap] at h
      cases h
      exact (Tty.modifiers_printBuffer _).trans (s.tty.modifiers_addToBuffer _)
    · rw [if_neg hcap] at h
      cases h
      exact (Tty.modifiers_printBuffer _).trans (s.tty.modifiers_addToBuffer _)
  · rw [if_neg hle, if_neg hctrlUp, if_neg (not_or.mpr ⟨hlUp, hrUp⟩), if_neg haltUp] at h
    cases h
    rfl

theorem keyboardHandler_modifiers {sc : UInt8} (h : s.keyboardHandler m fr sc = .ok s') :
    s'.tty.modifiers = s.tty.modifiers.handle sc := by
  unfold Modifiers.handle
  by_cases hctrl : sc = lCtrl
  · subst hctrl
    cases h
    rfl
  by_cases halt : sc = lAlt
  · subst halt
    cases h
    rfl
  by_cases hctrlUp : sc = lCtrlRelease
  · subst hctrlUp
    cases h
    rfl
  by_cases haltUp : sc = lAltRelease
  · subst haltUp
    cases h
    rfl
  rw [if_neg hctrl, if_neg halt, if_neg hctrlUp, if_neg haltUp]
  by_cases htoggle : sc ∈ toggleCodes
  · rw [keyboardHandler_toggle htoggle] at h
    cases h
    rw [if_pos htoggle]
    rfl
  · rw [if_neg htoggle]
    exact keyboardHandler_keeps hctrl halt hctrlUp haltUp htoggle h

end Kernel
end KudOS
