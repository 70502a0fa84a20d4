import KudOS.InterruptDrivers

/-!
# Interrupts in every interleaving

The handlers restore what the kernel's code relies on, so every routine ends as if nothing
had interrupted it. The view hides the selected clock register where the clock interrupt
may come, since its handler selects another one.
-/

namespace KudOS.Hardware

open Interrupts Pic

/-! ## The view -/

/-- What code may rely on. `lost` says that the clock's line is high and that its edge is
no longer latched: no edge can follow until register C is read. -/
structure View where
  pics : Pair
  index : Option Byte
  registerA : BitVec 7
  registerB : Byte
  lost : Bool

namespace View

/-- The view with the interrupt flag set. -/
def hide (w : View) : View :=
  { w with index := if w.pics.slave.Masked clockInput then w.index else none }

def endMaster (w : View) (i : Fin 8) : View :=
  { w with pics := { w.pics with master := w.pics.master.endOf i } }

def endSlave (w : View) (i : Fin 8) : View :=
  { w with pics := { w.pics with slave := w.pics.slave.endOf i } }

def maskMaster (w : View) (m : Byte) : View :=
  { w with pics := { w.pics with master := { w.pics.master with mask := m } } }

def maskSlave (w : View) (m : Byte) : View :=
  { w with pics := { w.pics with slave := { w.pics.slave with mask := m } } }

def select (w : View) (i : Byte) : View := { w with index := some i }

end View

namespace Devices

def lost (d : Devices) : Bool := d.clock.line && !d.requests.slave clockInput

def view (f : Bool) (d : Devices) : View :=
  ⟨d.pics, if f = true ∧ ¬ d.pics.slave.Masked clockInput then none else some d.clock.index,
    d.clock.registerA, d.clock.registerB, d.lost⟩

/-- A low line of the clock is never lost, a rising one is latched, and one that stays
high is as it was. -/
theorem lost_setClock (d : Devices) (c : Clock) :
    (d.setClock c).lost = (c.line && (d.clock.line && d.lost)) := by
  unfold lost setClock
  cases hc : c.line with
  | false => simp
  | true =>
    cases hd : d.clock.line with
    | false => simp [Requests.raise]
    | true => simp

theorem lost_le_line (d : Devices) : (d.clock.line && d.lost) = d.lost := by
  unfold lost
  cases d.clock.line <;> rfl

theorem Event.view_eq {d d' : Devices} (h : Event d d') (f : Bool) : d'.view f = d.view f := by
  cases h with
  | tick f' =>
    have hlost : (d.setClock { d.clock with flags := d.clock.flags ||| f' }).lost = d.lost := by
      rw [lost_setClock, lost_le_line]
      cases hl : d.lost with
      | false => exact Bool.and_false _
      | true =>
        have hline : d.clock.line = true := by
          rw [lost, Bool.and_eq_true] at hl
          exact hl.1
        rw [Bool.and_true]
        unfold Clock.line at hline ⊢
        rw [decide_eq_true_eq] at hline ⊢
        intro hzero
        apply hline
        rw [BitVec.and_or_distrib_right] at hzero
        exact (BitVec.or_eq_zero_iff.mp hzero).1
    rw [view, view, hlost]
    rfl
  | update b => rfl
  | key v => rfl
  | raise x h =>
    have hslave : (d.requests.raise x).slave 0 = d.requests.slave 0 := by
      cases x with
      | master i => rfl
      | slave i =>
        have hi : (0 : Fin 8) ≠ i := fun heq => h (congrArg Pin.slave heq.symm)
        simp [Requests.raise, hi]
    rw [view, view, lost, lost, hslave]

theorem view_true (d : Devices) (f : Bool) : d.view true = (d.view f).hide := by
  unfold view View.hide
  cases f with
  | false =>
    simp only [true_and, Bool.false_eq_true, false_and, if_false]
    by_cases hm : d.pics.slave.Masked 0 <;> simp [hm]
  | true => by_cases hm : d.pics.slave.Masked 0 <;> simp [hm]

end Devices

/-! ## What holds wherever the flag is set -/

/-- The chips as `i8259_init` sets them up. -/
def masterChip (service : Fin 8 → Bool) (mask : Byte) : Chip :=
  ⟨service, mask, 0x11, 0x20, 0x04, 0x01, .ready⟩

def slaveChip (service : Fin 8 → Bool) (mask : Byte) : Chip :=
  ⟨service, mask, 0x11, 0x28, 0x02, 0x01, .ready⟩

theorem masterChip_accept (service : Fin 8 → Bool) (mask : Byte) (i : Fin 8) :
    (masterChip service mask).accept i = masterChip (Function.update service i true) mask := by
  simp [masterChip, Chip.accept]

theorem slaveChip_accept (service : Fin 8 → Bool) (mask : Byte) (i : Fin 8) :
    (slaveChip service mask).accept i = slaveChip (Function.update service i true) mask := by
  simp [slaveChip, Chip.accept]

/-- The chips are set up, and only the lines that have a handler are not masked. -/
structure Configured (p : Pair) : Prop where
  master : p.master = masterChip p.master.service p.master.mask
  slave : p.slave = slaveChip p.slave.service p.slave.mask
  masterMask : ∀ i, ¬ p.master.Masked i → i ≤ 2
  slaveMask : ∀ i, ¬ p.slave.Masked i → i = 0

/-- The masks and the clock behind `entry`: the clock interrupts at 1024 Hz or less. -/
structure Settings (masterMask slaveMask : Byte) (registerA : BitVec 7) (registerB : Byte) :
    Prop where
  master : masterMask = 0xF8
  slave : slaveMask = 0xFE ∨ slaveMask = 0xFF
  periodic : registerB.getLsbD 6 = true
  rate : 6 ≤ (registerA.setWidth 4).toNat

def View.Booted (w : View) : Prop :=
  Settings w.pics.master.mask w.pics.slave.mask w.registerA w.registerB

/-- What holds of the view wherever the flag is `f`; `a` are the divider bits of the
clock. The keyboard is the last line to be enabled. -/
structure Good (a : BitVec 3) (f : Bool) (w : View) : Prop where
  configured : Configured w.pics
  divider : w.registerA.extractLsb' 4 3 = a
  booted : ¬ w.pics.master.Masked 1 → w.Booted
  slaveIdle : f = true → ∀ i, w.pics.slave.service i = false
  masterIdle : f = true → ∀ i, i ≠ 1 → w.pics.master.service i = false
  notLost : f = true → w.lost = false

/-- What user mode may rely on. -/
structure UserView (w : View) : Prop where
  idle : w.pics.Idle
  booted : w.Booted

def observer (a : BitVec 3) : Observer board View where
  view := Devices.view
  view_event f _ _ h := Devices.Event.view_eq h f
  Good := Good a

variable {a : BitVec 3} {f : Bool} {u w : View} {d d' : Devices} {c k : Code} {v : Byte} {i : Fin 8}
  {post exit : View → Prop}

/-- The selected clock register does not matter. -/
theorem good_view_true (h : Good a true (d.view true)) : Good a f (d.view f) where
  configured := h.configured
  divider := h.divider
  booted := h.booted
  slaveIdle _ := h.slaveIdle rfl
  masterIdle _ := h.masterIdle rfl
  notLost _ := h.notLost rfl

/-- Ends of interrupt keep what holds. -/
theorem Good.endMaster (hg : Good a f w) (i : Fin 8) : Good a f (w.endMaster i) where
  configured := by
    obtain ⟨hm, hs, hmm, hsm⟩ := hg.configured
    refine ⟨?_, hs, hmm, hsm⟩
    change w.pics.master.endOf i = masterChip (w.pics.master.endOf i).service w.pics.master.mask
    rw [hm]
    rfl
  divider := hg.divider
  booted := hg.booted
  slaveIdle := hg.slaveIdle
  masterIdle hf j hj := by
    by_cases hji : j = i
    · rw [hji]
      exact Chip.endOf_self _ i
    · exact (Chip.endOf_of_ne hji).trans (hg.masterIdle hf j hj)
  notLost := hg.notLost

theorem Good.endSlave (hg : Good a f w) (i : Fin 8) : Good a f (w.endSlave i) where
  configured := by
    obtain ⟨hm, hs, hmm, hsm⟩ := hg.configured
    refine ⟨hm, ?_, hmm, hsm⟩
    change w.pics.slave.endOf i = slaveChip (w.pics.slave.endOf i).service w.pics.slave.mask
    rw [hs]
    rfl
  divider := hg.divider
  booted := hg.booted
  slaveIdle hf j := by
    by_cases hji : j = i
    · rw [hji]
      exact Chip.endOf_self _ i
    · exact (Chip.endOf_of_ne hji).trans (hg.slaveIdle hf j)
  masterIdle := hg.masterIdle
  notLost := hg.notLost

/-! ## Port accesses -/

namespace Devices

theorem write_endMaster (d : Devices) (i : Fin 8) (f : Bool) :
    (d.write 0x20 (0x60 ||| BitVec.ofNat 8 i)).view f = (d.view f).endMaster i := by
  have hword : ∀ i : Fin 8, (0x60 ||| BitVec.ofNat 8 i : Byte).getLsbD 4 = false := by decide
  rw [write, if_pos rfl, writeMaster, Chip.writeCommand_specific,
    if_neg (ne_true_of_eq_false (hword i))]
  rfl

theorem write_endSlave (d : Devices) (i : Fin 8) (f : Bool) :
    (d.write 0xA0 (0x60 ||| BitVec.ofNat 8 i)).view f = (d.view f).endSlave i := by
  have hword : ∀ i : Fin 8, (0x60 ||| BitVec.ofNat 8 i : Byte).getLsbD 4 = false := by decide
  rw [write, if_neg (by decide), if_neg (by decide), if_pos rfl, writeSlave,
    Chip.writeCommand_specific, if_neg (ne_true_of_eq_false (hword i))]
  rfl

theorem write_maskMaster (d : Devices) (m : Byte) (f : Bool) (h : d.pics.master.stage = .ready) :
    (d.write 0x21 m).view f = (d.view f).maskMaster m := by
  rw [write, if_neg (by decide), if_pos rfl, Chip.writeData_ready h]
  rfl

theorem write_other (d : Devices) (v : Byte) {port : ℕ} (h : port = 0x3D4 ∨ port = 0x3D5 ∨
    port = 0x43 ∨ port = 0x40) : d.write port v = d := by
  unfold write
  obtain rfl | rfl | rfl | rfl := h <;> rfl

theorem write_select (d : Devices) (v : Byte) :
    (d.write 0x70 v).view false = (d.view false).select (v &&& 0x7F) := rfl

/-- Where the clock's interrupt is masked, the selected register is in view. -/
theorem view_true_of_masked (h : d.pics.slave.Masked 0) : d.view true = d.view false := by
  rw [view, view, if_neg (fun hf => hf.2 h), if_neg (fun hf => Bool.false_ne_true hf.1)]

/-- An access that leaves the clock's line as it is. -/
theorem view_setClock (d : Devices) {e : Clock} (h : e.line = d.clock.line) (f : Bool) :
    (d.setClock e).view f = ⟨d.pics, if f = true ∧ ¬ d.pics.slave.Masked 0 then none else
      some e.index, e.registerA, e.registerB, d.lost⟩ := by
  rw [view, lost_setClock, h, lost_le_line, lost_le_line]
  rfl

theorem write_registerA (d : Devices) (v : Byte) (h : d.clock.index = 0x0A) (f : Bool) :
    (d.write 0x71 v).view f = { d.view f with registerA := v.setWidth 7 } := by
  have hclock : d.clock.writeData v = { d.clock with registerA := v.setWidth 7 } := by
    rw [Clock.writeData, if_pos h]
  change (d.setClock (d.clock.writeData v)).view f = _
  rw [view_setClock d (by rw [hclock]; rfl), hclock]
  rfl

theorem write_registerB (d : Devices) (v : Byte) (h : d.clock.index = 0x0B) (hl : d.lost = false)
    (f : Bool) : (d.write 0x71 v).view f = { d.view f with registerB := v } := by
  have hclock : d.clock.writeData v = { d.clock with registerB := v } := by
    rw [Clock.writeData, if_neg (by rw [h]; decide), if_pos h]
  change (d.setClock (d.clock.writeData v)).view f = _
  rw [view, lost_setClock, hl, Bool.and_false, Bool.and_false, hclock, view, hl]
  rfl

theorem read_registerA (d : Devices) (h : d.clock.index = 0x0A) (f : Bool) :
    (d.read 0x71).1.setWidth 7 = d.clock.registerA ∧ (d.read 0x71).2.view f = d.view f := by
  have hread : d.clock.readData = (BitVec.ofBool d.clock.updating ++ d.clock.registerA, d.clock) := by
    rw [Clock.readData, if_pos h]
  change d.clock.readData.1.setWidth 7 = _ ∧ (d.setClock d.clock.readData.2).view f = _
  rw [hread]
  exact ⟨BitVec.setWidth_append_eq_right, view_setClock d rfl f⟩

theorem read_registerB (d : Devices) (h : d.clock.index = 0x0B) (f : Bool) :
    (d.read 0x71).1 = d.clock.registerB ∧ (d.read 0x71).2.view f = d.view f := by
  have hread : d.clock.readData = (d.clock.registerB, d.clock) := by
    rw [Clock.readData, if_neg (by rw [h]; decide), if_pos h]
  change d.clock.readData.1 = _ ∧ (d.setClock d.clock.readData.2).view f = _
  rw [hread]
  exact ⟨rfl, view_setClock d rfl f⟩

/-- A read of register C lets the next edge come. -/
theorem read_registerC (d : Devices) (h : d.clock.index = 0x0C) (f : Bool) :
    (d.read 0x71).2.view f = { d.view f with lost := false } := by
  have hread : d.clock.readData.2 = { d.clock with flags := 0 } := by
    rw [Clock.readData, if_neg (by rw [h]; decide), if_neg (by rw [h]; decide), if_pos h]
  have hline : { d.clock with flags := 0 }.line = false := by simp [Clock.line]
  change (d.setClock d.clock.readData.2).view f = _
  rw [hread, view, lost_setClock, hline, Bool.false_and]
  rfl

end Devices

/-! ## Routines that are entered with the interrupt flag set or not -/

/-- The code does its work wherever the view with the flag set is `u`. -/
def Sound (a : BitVec 3) (post exit : View → Prop) (u : View) (c : Code) : Prop :=
  ∀ f (d : Devices), d.view true = u → (observer a).Ends post exit c f (d.view f)

namespace Sound

/-- Devices that look the same with the flag `f` look the same with the flag set. -/
theorem view_true_congr (h : d'.view f = d.view f) : d'.view true = d.view true := by
  rw [d'.view_true f, h, ← d.view_true]

theorem outb {v : Byte} {p : ℕ} (hg : Good a true u)
    (h : ∀ d : Devices, d.view true = u → Sound a post exit ((d.write p v).view true) k) :
    Sound a post exit u (.outb v p k) := by
  rintro f d rfl
  exact ⟨good_view_true hg, fun d' hd => h d' (view_true_congr hd) f _ rfl⟩

theorem inb {p : ℕ} {k : Byte → Code} (hg : Good a true u)
    (h : ∀ d : Devices, d.view true = u →
      Sound a post exit ((d.read p).2.view true) (k (d.read p).1)) :
    Sound a post exit u (.inb p k) := by
  rintro f d rfl
  exact ⟨good_view_true hg, fun d' hd => h d' (view_true_congr hd) f _ rfl⟩

theorem cli (hg : Good a true u) (h : Sound a post exit u k) : Sound a post exit u (.cli k) := by
  rintro f d rfl
  exact ⟨good_view_true hg, fun d' hd => h false d' (view_true_congr hd)⟩

theorem sti (hg : Good a true u) (h : Sound a post exit u k) : Sound a post exit u (.sti k) := by
  rintro f d rfl
  exact ⟨good_view_true hg, fun d' hd => h true d' (view_true_congr hd)⟩

theorem iret (hg : Good a true u) (h : post u) : Sound a post exit u .iret := by
  rintro f d rfl
  refine ⟨good_view_true hg, fun d' hd => ?_⟩
  change post (d'.view true)
  rw [view_true_congr hd]
  exact h

theorem leave (hg : Good a true u) (h : exit u) : Sound a post exit u .leave := by
  rintro f d rfl
  refine ⟨good_view_true hg, fun d' hd => ?_⟩
  change Good a true (d'.view true) ∧ exit (d'.view true)
  rw [view_true_congr hd]
  exact ⟨hg, h⟩

theorem spin (hg : Good a true u) : Sound a post exit u .spin := by
  rintro f d rfl
  exact good_view_true hg

theorem display (hg : Good a true u) (hk : Sound a post exit u k) (hc : Display k c) :
    Sound a post exit u c := by
  have hother : ∀ {v : Byte} {p : ℕ} {k : Code}, (p = 0x3D4 ∨ p = 0x3D5 ∨ p = 0x43 ∨ p = 0x40) →
      Sound a post exit u k → Sound a post exit u (.outb v p k) := by
    intro v p k hp hk
    refine outb hg fun d hd => ?_
    rw [d.write_other v hp, hd]
    exact hk
  induction hc with
  | done => exact hk
  | scroll _ ih => exact cli hg (sti hg ih)
  | moveCsr loc _ ih =>
    exact hother (Or.inl rfl) (hother (Or.inr (Or.inl rfl))
      (hother (Or.inl rfl) (hother (Or.inr (Or.inl rfl)) ih)))

theorem sendEoi (hg : Good a true u) (hk : Sound a post exit (u.endMaster 1) k) :
    Sound a post exit u (sendEoi 1 k) := by
  refine outb hg fun d hd => ?_
  have hend := d.write_endMaster 1 true
  rw [hd] at hend
  exact hend ▸ hk

/-- `execute`, whether or not it can start the program. -/
theorem execute (hg : Good a true u) (hexit : exit (u.endMaster 1))
    (hk : Sound a post exit (u.endMaster 1) k) (hc : Execute k c) : Sound a post exit u c := by
  have hg' := hg.endMaster 1
  cases hc with
  | start h => exact sendEoi hg (cli hg' (display hg' (cli hg' (leave hg' hexit)) h))
  | fail h => exact sendEoi hg (cli hg' (display hg' hk h))

/-- Without the keyboard in service its end of interrupt does nothing. -/
theorem endMaster_of_idle (h : u.pics.Idle) : u.endMaster 1 = u := by
  rw [View.endMaster, Chip.endOf_eq_self (h 1).1]

/-- The system calls other than `rtc_write`, from user mode. -/
theorem systemCall (hg : Good a true u) (hidle : u.pics.Idle) (hexit : exit u)
    (hwrite : ∀ newFreq, Sound a post exit u (rtcWrite newFreq syscallReturn))
    (hc : SystemCall c) : Sound a post exit u c := by
  have hend : u.endMaster 1 = u := endMaster_of_idle hidle
  have hreturn : Sound a post exit u syscallReturn := cli hg (leave hg hexit)
  have hexecute {c : Code} (h : Execute syscallReturn c) : Sound a post exit u c :=
    execute hg (hend.symm ▸ hexit) (hend.symm ▸ hreturn) h
  cases hc with
  | rtcWrite newFreq => exact hwrite newFreq
  | execute h => exact hexecute h
  | halt h =>
    cases h with
    | parent => exact hreturn
    | shell h => exact hexecute h
  | other h => exact display hg hreturn h
  | exception h => exact cli hg (display hg (spin hg) h)

end Sound

/-! ## The handlers -/

theorem Configured.cascaded {p : Pair} (hc : Configured p) : p.Cascaded := by
  rw [Pair.Cascaded, hc.master, hc.slave]
  simp [masterChip, slaveChip]

/-- What the acknowledge cycle of the pair finds. -/
theorem accept_cases (hc : Configured d.pics) (h : d.accept = some (v, d')) :
    (v = 0x20 ∧ d' = d.acknowledge (.master 0) ∧ d.pics.master.Open 0) ∨
    (v = 0x21 ∧ d' = d.acknowledge (.master 1) ∧ d.pics.master.Open 1) ∨
    (v = 0x28 ∧ d' = d.acknowledge clockPin ∧ d.pics.master.Open 2 ∧ d.pics.slave.Open 0) := by
  obtain ⟨x, hx, heq⟩ := Option.map_eq_some_iff.mp h
  cases x with
  | master i =>
    obtain ⟨hopen, hne, -⟩ := Pair.master_of_select hx hc.cascaded
    have hle := hc.masterMask i hopen.1
    have hv : d.pics.vector (.master i) = 0x20 ||| BitVec.ofNat 8 i := by
      rw [Pair.vector, hc.master]
      rfl
    rw [hv] at heq
    have hi : i = 0 ∨ i = 1 := by
      change i ≠ 2 at hne
      omega
    obtain rfl | rfl := hi
    · cases heq
      exact Or.inl ⟨rfl, rfl, hopen⟩
    · cases heq
      exact Or.inr (Or.inl ⟨rfl, rfl, hopen⟩)
  | slave i =>
    obtain ⟨hmaster, hslave, -⟩ := Pair.slave_of_select hx
    obtain rfl := hc.slaveMask i hslave.1
    have hv : d.pics.vector (.slave 0) = 0x28 := by
      rw [Pair.vector, hc.slave]
      simp [Chip.vector, slaveChip]
    rw [hv] at heq
    cases heq
    exact Or.inr (Or.inr ⟨rfl, rfl, hmaster, hslave⟩)

theorem Configured.accept {p : Pair} (h : Configured p) (x : Pin) : Configured (p.accept x) := by
  have hmaster : ∀ i, p.master.accept i =
      masterChip (p.master.accept i).service (p.master.accept i).mask := by
    intro i
    rw [h.master, masterChip_accept]
    rfl
  have hslave : ∀ i, p.slave.accept i =
      slaveChip (p.slave.accept i).service (p.slave.accept i).mask := by
    intro i
    rw [h.slave, slaveChip_accept]
    rfl
  cases x with
  | master i =>
    refine ⟨hmaster i, h.slave, fun j hj => h.masterMask j ?_, h.slaveMask⟩
    rwa [Chip.Masked, Pair.accept, Chip.accept_mask] at hj
  | slave i =>
    refine ⟨hmaster _, hslave i, fun j hj => h.masterMask j ?_, fun j hj => h.slaveMask j ?_⟩
    · rwa [Chip.Masked, Pair.accept, Chip.accept_mask] at hj
    · rwa [Chip.Masked, Pair.accept, Chip.accept_mask] at hj

/-- A handler starts with the flag clear, so only the set-up matters. -/
theorem good_acknowledge (hg : Good a true (d.view true)) (x : Pin) :
    Good a false ((d.acknowledge x).view false) where
  configured := hg.configured.accept x
  divider := hg.divider
  booted hm := by
    have hmaster : (d.pics.accept x).master.mask = d.pics.master.mask := by
      cases x <;> exact Chip.accept_mask _ _
    have hslave : (d.pics.accept x).slave.mask = d.pics.slave.mask := by
      cases x with
      | master i => rfl
      | slave i => exact Chip.accept_mask _ _
    have hb := hg.booted (by rwa [Chip.Masked, Devices.view, Devices.acknowledge, hmaster] at hm)
    exact ⟨hmaster.trans hb.master, hslave ▸ hb.slave, hb.periodic, hb.rate⟩
  slaveIdle hf := absurd hf Bool.false_ne_true
  masterIdle hf := absurd hf Bool.false_ne_true
  notLost hf := absurd hf Bool.false_ne_true

theorem handler_cases (h : Handler v c) : (v = 0x20 ∧ c = pitHandler) ∨
    (v = 0x21 ∧ ∃ body, c = keyboardHandler body ∧ ∀ b, KeyboardBody (body b)) ∨
    (v = 0x28 ∧ c = rtcHandler) := by
  cases h with
  | pit => exact Or.inl ⟨rfl, rfl⟩
  | keyboard body h => exact Or.inr (Or.inl ⟨rfl, body, rfl, h⟩)
  | rtc => exact Or.inr (Or.inr ⟨rfl, rfl⟩)

/-- The acknowledge cycle of the master is undone by the end of interrupt. -/
theorem endMaster_acknowledge (hc : Configured d.pics) (hi : d.pics.master.service i = false) :
    ((d.acknowledge (.master i)).view f).endMaster i = d.view f := by
  have hmode : d.pics.master.mode.getLsbD 1 = false := by
    rw [hc.master]
    simp [masterChip]
  rw [View.endMaster]
  change (⟨⟨(d.pics.master.accept i).endOf i, d.pics.slave⟩, _, _, _, _⟩ : View) = _
  rw [Chip.endOf_accept hmode hi]
  rfl

/-- A handler that gave back what it took from a view returns to it. -/
theorem ends_iret (h : Good a false w) (hw : w.hide = d.view true) :
    (observer a).Ends (fun w => w = d.view true) exit .iret false w := by
  refine ⟨h, fun e he => ?_⟩
  change e.view true = d.view true
  rw [e.view_true false]
  change e.view false = w at he
  rw [he, hw]

theorem pitHandler_ends (hg : Good a true (d.view true)) (hopen : d.pics.master.Open 0) :
    (observer a).Ends (fun w => w = d.view true) exit pitHandler false
      ((d.acknowledge (.master 0)).view false) := by
  refine ⟨good_acknowledge hg _, fun e he => ?_⟩
  change e.view false = _ at he
  change (observer a).Ends _ _ _ _ ((e.write 0x20 (0x60 ||| BitVec.ofNat 8 (0 : Fin 8))).view false)
  rw [e.write_endMaster, he, endMaster_acknowledge hg.configured (hopen.2 0 (Nat.le_refl _))]
  exact ends_iret (good_view_true hg) (d.view_true false).symm

/-- Both chips give back what they took for the clock. -/
theorem end_acknowledge_clock (hc : Configured d.pics) (hm : d.pics.master.service 2 = false)
    (hs : d.pics.slave.service 0 = false) :
    (((d.acknowledge clockPin).view false).endSlave 0).endMaster 2 =
      { d.view false with lost := ((d.acknowledge clockPin).view false).lost } := by
  have hmaster : d.pics.master.mode.getLsbD 1 = false := by
    rw [hc.master]
    simp [masterChip]
  have hslave : d.pics.slave.mode.getLsbD 1 = false := by
    rw [hc.slave]
    simp [slaveChip]
  rw [View.endMaster, View.endSlave]
  change (⟨⟨(d.pics.master.accept 2).endOf 2, (d.pics.slave.accept 0).endOf 0⟩, _, _, _, _⟩ : View) = _
  rw [Chip.endOf_accept hmaster hm, Chip.endOf_accept hslave hs]
  rfl

theorem rtcHandler_ends (hg : Good a true (d.view true)) (hmaster : d.pics.master.Open 2)
    (hslave : d.pics.slave.Open 0) :
    (observer a).Ends (fun w => w = d.view true) exit rtcHandler false
      ((d.acknowledge clockPin).view false) := by
  have hback := end_acknowledge_clock hg.configured (hmaster.2 2 (Nat.le_refl _))
    (hslave.2 0 (Nat.le_refl _))
  have hg₀ := good_acknowledge hg clockPin
  have hg₁ := hg₀.endSlave 0
  have hg₂ := hg₁.endMaster 2
  refine ⟨hg₀, fun d₀ h₀ => ?_⟩
  change d₀.view false = _ at h₀
  change (observer a).Ends _ _ _ _
    ((d₀.write 0xA0 (0x60 ||| BitVec.ofNat 8 (0 : Fin 8))).view false)
  rw [d₀.write_endSlave, h₀]
  refine ⟨hg₁, fun d₁ h₁ => ?_⟩
  change d₁.view false = _ at h₁
  change (observer a).Ends _ _ _ _
    ((d₁.write 0x20 (0x60 ||| BitVec.ofNat 8 (2 : Fin 8))).view false)
  rw [d₁.write_endMaster, h₁]
  refine ⟨hg₂, fun d₂ h₂ => ?_⟩
  change d₂.view false = _ at h₂
  change (observer a).Ends _ _ _ _ ((d₂.write 0x70 0x0C).view false)
  rw [d₂.write_select, h₂, hback]
  rw [hback] at hg₂
  -- Interrupts are off, so register C is still selected when it is read.
  refine ⟨?_, fun d₃ h₃ => ?_⟩
  · exact ⟨hg₂.configured, hg₂.divider, hg₂.booted, hg₂.slaveIdle, hg₂.masterIdle, hg₂.notLost⟩
  change d₃.view false = _ at h₃
  have hindex : d₃.clock.index = 0x0C := Option.some.inj (congrArg View.index h₃)
  change (observer a).Ends _ _ .iret false ((d₃.read 0x71).2.view false)
  rw [d₃.read_registerC hindex, h₃]
  have hlost : (d.view true).lost = false := hg.notLost rfl
  have hunmasked : ¬ d.pics.slave.Masked 0 := hslave.1
  refine ends_iret ?_ ?_
  · exact ⟨hg.configured, hg.divider, hg.booted, fun _ => hg.slaveIdle rfl,
      fun _ => hg.masterIdle rfl, fun _ => rfl⟩
  · change (⟨d.pics, if d.pics.slave.Masked 0 then _ else none, _, _, false⟩ : View) =
      ⟨d.pics, if true = true ∧ ¬ d.pics.slave.Masked 0 then none else _, _, _, d.lost⟩
    rw [if_neg hunmasked, if_pos ⟨rfl, hunmasked⟩, show d.lost = false from hlost]
    rfl

/-- The keyboard may interrupt only where nothing is in service. -/
theorem idle_of_open (hg : Good a true (d.view true)) (hopen : d.pics.master.Open 1) :
    d.pics.Idle := by
  intro i
  refine ⟨?_, hg.slaveIdle rfl i⟩
  by_cases hi : i = 1
  · rw [hi]
    exact hopen.2 1 (Nat.le_refl _)
  · exact hg.masterIdle rfl i hi

/-- The view at the start of `keyboard_handler`: its own bit is in service. -/
theorem good_acknowledge_keyboard (hg : Good a true (d.view true)) (hidle : d.pics.Idle) :
    Good a true ((d.acknowledge (.master 1)).view true) := by
  have h := good_acknowledge hg (.master 1)
  refine ⟨h.configured, h.divider, h.booted, fun _ => hg.slaveIdle rfl, fun _ i hi => ?_,
    fun _ => hg.notLost rfl⟩
  have hc : Configured d.pics := hg.configured
  change (d.pics.master.accept 1).service i = false
  rw [hc.master, masterChip_accept]
  exact (Function.update_of_ne hi true _).trans (hidle i).1

theorem keyboardBody_sound {u₀ : View} (hg : Good a true u) (hg₀ : Good a true u₀)
    (huser : UserView u₀) (hend : u.endMaster 1 = u₀) (hc : KeyboardBody c) :
    Sound a (fun w => w = u₀) UserView u c := by
  have hend₀ : u₀.endMaster 1 = u₀ := Sound.endMaster_of_idle huser.idle
  have hback : Sound a (fun w => w = u₀) UserView u₀ (.sti .iret) :=
    Sound.sti hg₀ (Sound.iret hg₀ rfl)
  have hreturn : Sound a (fun w => w = u₀) UserView u₀ syscallReturn :=
    Sound.cli hg₀ (Sound.leave hg₀ huser)
  have hkeyboardEnd {u : View} (hg : Good a true u) (hend : u.endMaster 1 = u₀) :
      Sound a (fun w => w = u₀) UserView u keyboardEnd := Sound.sendEoi hg (hend.symm ▸ hback)
  cases hc with
  | edit h => exact Sound.display hg (hkeyboardEnd hg hend) h
  | ctrlC h =>
    refine Sound.sendEoi hg ?_
    rw [hend]
    cases h with
    | parent => exact hreturn
    | shell h => exact Sound.execute hg₀ (hend₀.symm ▸ huser) (hend₀.symm ▸ hreturn) h
  | newTerminal h h' =>
    refine Sound.display hg (Sound.execute hg (hend.symm ▸ huser) ?_ h) h'
    rw [hend]
    exact hkeyboardEnd hg₀ hend₀
  | exception h => exact Sound.cli hg (Sound.display hg (Sound.spin hg) h)

theorem keyboardHandler_ends {body : Byte → Code} (hg : Good a true (d.view true))
    (hopen : d.pics.master.Open 1) (hbody : ∀ b, KeyboardBody (body b)) :
    (observer a).Ends (fun w => w = d.view true) UserView (keyboardHandler body) false
      ((d.acknowledge (.master 1)).view false) := by
  have hidle := idle_of_open hg hopen
  have hg₁ := good_acknowledge_keyboard hg hidle
  refine Sound.cli (u := (d.acknowledge (.master 1)).view true) hg₁ (Sound.inb hg₁ fun e he => ?_)
    false _ rfl
  change Sound a _ _ (e.view true) _
  rw [he]
  exact keyboardBody_sound hg₁ hg ⟨hidle, hg.booted hopen.1⟩
    (endMaster_acknowledge hg.configured (hidle 1).1) (hbody _)

/-- Every handler restores the view that it interrupts, or leaves a view fit for user mode. -/
theorem handlers_restore (a : BitVec 3) : (observer a).Restores Handler UserView := by
  intro d v d' h hg hv hh
  rcases accept_cases hg.configured hv with ⟨rfl, rfl, hopen⟩ | ⟨rfl, rfl, hopen⟩ |
    ⟨rfl, rfl, hmaster, hslave⟩
  all_goals rcases handler_cases hh with ⟨heq, rfl⟩ | ⟨heq, body, rfl, hbody⟩ | ⟨heq, rfl⟩
  all_goals try exact absurd heq (by decide)
  · exact pitHandler_ends hg hopen
  · exact keyboardHandler_ends hg hopen hbody
  · exact rtcHandler_ends hg hmaster hslave

end KudOS.Hardware
