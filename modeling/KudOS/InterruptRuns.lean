import KudOS.InterruptNesting

/-!
# The kernel under interrupts

From the end of `i8259_init` on, in every order of interrupts, device events and system
calls: user mode runs with nothing in service, the clock's edge is never lost, and
`rtc_write` does to the clock what it would do alone.
-/

namespace KudOS.Hardware

open Interrupts Pic

variable {a : BitVec 3} {f : Bool} {u w : View} {d d' : Devices} {c k : Code} {v : Byte} {i : Fin 8}
  {post exit : View → Prop} {newFreq : ℕ}

/-! ## The clock's registers -/

def rateWritten (newFreq : ℕ) (registerA : BitVec 7) : BitVec 7 :=
  (registerA &&& 0x70) ||| BitVec.ofNat 7 (Kernel.rtcRate newFreq)

namespace View

/-- The view while `rtc_write` masks the clock's interrupt. -/
def masked (u : View) (index : Byte) : View := { u.maskSlave 0xFF with index := some index }

def rtcWritten (u : View) (newFreq : ℕ) : View :=
  { u.maskSlave 0xFE with index := none, registerA := rateWritten newFreq u.registerA }

end View

theorem rtcRate_bounds (newFreq : ℕ) :
    6 ≤ Kernel.rtcRate newFreq ∧ Kernel.rtcRate newFreq < 16 := by
  unfold Kernel.rtcRate
  split_ifs <;> decide

theorem rateWritten_eq {b : Byte} {registerA : BitVec 7} (h : b.setWidth 7 = registerA)
    (newFreq : ℕ) :
    ((b &&& 0xF0) ||| BitVec.ofNat 8 (Kernel.rtcRate newFreq)).setWidth 7 =
      rateWritten newFreq registerA := by
  rw [rateWritten, ← h, BitVec.setWidth_or, BitVec.setWidth_and,
    BitVec.setWidth_ofNat_of_le (by decide)]
  rfl

theorem rateWritten_divider (newFreq : ℕ) (registerA : BitVec 7) :
    (rateWritten newFreq registerA).extractLsb' 4 3 = registerA.extractLsb' 4 3 := by
  have hrate : ∀ n, 6 ≤ n → n < 16 → (BitVec.ofNat 7 n).extractLsb' 4 3 = 0#3 := by decide
  obtain ⟨hlo, hhi⟩ := rtcRate_bounds newFreq
  have h := hrate _ hlo hhi
  rw [rateWritten, BitVec.extractLsb'_or, BitVec.extractLsb'_and, h, BitVec.or_zero]
  exact BitVec.and_allOnes

theorem rateWritten_rate (newFreq : ℕ) (registerA : BitVec 7) :
    ((rateWritten newFreq registerA).setWidth 4).toNat = Kernel.rtcRate newFreq := by
  have hrate : ∀ n, 6 ≤ n → n < 16 → ((BitVec.ofNat 7 n).setWidth 4).toNat = n := by decide
  obtain ⟨hlo, hhi⟩ := rtcRate_bounds newFreq
  have h := hrate _ hlo hhi
  rw [rateWritten, BitVec.setWidth_or, BitVec.setWidth_and]
  rw [show (0x70 : BitVec 7).setWidth 4 = 0#4 from rfl, BitVec.and_zero, BitVec.zero_or, h]

/-! ## Port accesses with the flag set -/

namespace Devices

theorem write_maskSlave (d : Devices) (m : Byte) (h : d.pics.slave.stage = .ready) :
    (d.write 0xA1 m).view true = { (d.view true).maskSlave m with
      index := if m.getLsbD 0 then some d.clock.index else none } := by
  rw [write, if_neg (by decide), if_neg (by decide), if_neg (by decide), if_pos rfl,
    Chip.writeData_ready h, view]
  cases hm : m.getLsbD 0 <;>
    simp [-BitVec.getLsbD_eq_getElem, Chip.Masked, hm, view, View.maskSlave, lost]

theorem write_select_masked (h : d.pics.slave.Masked 0) (v : Byte) :
    (d.write 0x70 v).view true = (d.view true).select (v &&& 0x7F) := by
  have h' : (d.write 0x70 v).pics.slave.Masked 0 := h
  rw [view_true_of_masked h', view_true_of_masked h, write_select]

end Devices

/-- In the masked view the selected register is known. -/
theorem masked_cases {index : Byte}
    (h : d.view true = { u.masked index with registerA := w.registerA }) :
    d.pics.slave.Masked 0 ∧ d.clock.index = index := by
  have hmasked : d.pics.slave.Masked 0 := by
    have hmask : d.pics.slave.mask = 0xFF := congrArg (fun w => w.pics.slave.mask) h
    rw [Chip.Masked, hmask]
    decide
  rw [d.view_true_of_masked hmasked] at h
  exact ⟨hmasked, Option.some.inj (congrArg View.index h)⟩

/-! ## The base code -/

theorem Good.masked (hg : Good a true u) (index : Byte) : Good a true (u.masked index) where
  configured := by
    have hall : ∀ i : Fin 8, (0xFF : Byte).getLsbD i = true := by decide
    obtain ⟨hm, hs, hmm, -⟩ := hg.configured
    refine ⟨hm, ?_, hmm, fun i hi => absurd (hall i) hi⟩
    change { u.pics.slave with mask := 0xFF } = slaveChip u.pics.slave.service 0xFF
    rw [hs]
    rfl
  divider := hg.divider
  booted hm := ⟨(hg.booted hm).master, Or.inr rfl, (hg.booted hm).periodic, (hg.booted hm).rate⟩
  slaveIdle := hg.slaveIdle
  masterIdle := hg.masterIdle
  notLost := hg.notLost

theorem Good.rateWritten (hg : Good a true u) (newFreq : ℕ) :
    Good a true { u with registerA := rateWritten newFreq u.registerA } where
  configured := hg.configured
  divider := (rateWritten_divider newFreq u.registerA).trans hg.divider
  booted hm := ⟨(hg.booted hm).master, (hg.booted hm).slave, (hg.booted hm).periodic, by
    change 6 ≤ ((Hardware.rateWritten newFreq u.registerA).setWidth 4).toNat
    rw [rateWritten_rate]
    exact (rtcRate_bounds newFreq).1⟩
  slaveIdle := hg.slaveIdle
  masterIdle := hg.masterIdle
  notLost := hg.notLost

namespace Sound

theorem slave_ready (hg : Good a true (d.view true)) : d.pics.slave.stage = .ready := by
  have hc : Configured d.pics := hg.configured
  rw [hc.slave]
  rfl

theorem master_ready (hg : Good a true (d.view true)) : d.pics.master.stage = .ready := by
  have hc : Configured d.pics := hg.configured
  rw [hc.master]
  rfl

/-- `disable_irq(8)`. Which clock register was selected is not known. -/
theorem disableClock (hg : Good a true u)
    (hmask : u.pics.slave.mask = 0xFE ∨ u.pics.slave.mask = 0xFF)
    (hk : ∀ index, Sound a post exit (u.masked index) k) :
    Sound a post exit u (disableIrq 8 k) := by
  rw [disableIrq, if_neg (by decide)]
  refine inb hg fun d hd => ?_
  change Sound a post exit (d.view true) (.outb _ 0xA1 k)
  rw [hd]
  refine outb hg fun d' hd' => ?_
  have hbyte : ((d.pics.slave.mask.setWidth 32 ||| bit (8 - 8)).setWidth 8 : Byte) = 0xFF := by
    have hm : d.pics.slave.mask = u.pics.slave.mask := congrArg (fun w => w.pics.slave.mask) hd
    rw [hm]
    rcases hmask with h | h <;> rw [h] <;> decide
  change Sound a post exit
    ((d'.write 0xA1 ((d.pics.slave.mask.setWidth 32 ||| bit (8 - 8)).setWidth 8)).view true) k
  rw [hbyte, d'.write_maskSlave _ (slave_ready (hd'.symm ▸ hg)), hd', if_pos (by decide)]
  exact hk _

theorem enableClock (hg : Good a true u)
    (hmask : u.pics.slave.mask = 0xFE ∨ u.pics.slave.mask = 0xFF)
    (hk : Sound a post exit { u.maskSlave 0xFE with index := none } k) :
    Sound a post exit u (enableIrq 8 k) := by
  rw [enableIrq, if_neg (by decide)]
  refine inb hg fun d hd => ?_
  change Sound a post exit (d.view true) (.outb _ 0xA1 k)
  rw [hd]
  refine outb hg fun d' hd' => ?_
  have hbyte : ((d.pics.slave.mask.setWidth 32 &&& ~~~bit (8 - 8)).setWidth 8 : Byte) = 0xFE := by
    have hm : d.pics.slave.mask = u.pics.slave.mask := congrArg (fun w => w.pics.slave.mask) hd
    rw [hm]
    rcases hmask with h | h <;> rw [h] <;> decide
  change Sound a post exit
    ((d'.write 0xA1 ((d.pics.slave.mask.setWidth 32 &&& ~~~bit (8 - 8)).setWidth 8)).view true) k
  rw [hbyte, d'.write_maskSlave _ (slave_ready (hd'.symm ▸ hg)), hd', if_neg (by decide)]
  exact hk

/-- A selection of a clock register while its interrupt is masked. -/
theorem selectClock {v index : Byte} (hg : Good a true (u.masked index))
    (hk : Sound a post exit (u.masked (v &&& 0x7F)) k) :
    Sound a post exit (u.masked index) (.outb v 0x70 k) := by
  refine outb hg fun d hd => ?_
  have hmasked := (masked_cases (w := u) hd).1
  change Sound a post exit ((d.write 0x70 v).view true) k
  rw [Devices.write_select_masked hmasked, hd]
  exact hk

theorem rtcWrite (hg : Good a true u)
    (hmask : u.pics.slave.mask = 0xFE ∨ u.pics.slave.mask = 0xFF)
    (hfast : 1024 < newFreq → Sound a post exit u k)
    (hk : newFreq ≤ 1024 → Sound a post exit (u.rtcWritten newFreq) k) :
    Sound a post exit u (rtcWrite newFreq k) := by
  rw [Hardware.rtcWrite]
  split
  · rename_i h
    exact hfast h
  rename_i hle
  refine disableClock hg hmask fun index => selectClock (hg.masked index) ?_
  have hg' := hg.masked 0x0A
  refine inb hg' fun d hd => ?_
  obtain ⟨hread, hview⟩ := d.read_registerA (masked_cases (w := u) hd).2 true
  have hA : d.clock.registerA = u.registerA := congrArg View.registerA hd
  change Sound a post exit ((d.read 0x71).2.view true) _
  rw [hview, hd]
  refine selectClock hg' (outb hg' fun d' hd' => ?_)
  rw [d'.write_registerA _ (masked_cases (w := u) hd').2, hd', rateWritten_eq (hread.trans hA)]
  exact enableClock (hg'.rateWritten newFreq) (Or.inr rfl) (hk (Nat.le_of_not_lt hle))

end Sound

/-! ## entry -/

/-- The views of `entry`: nothing is in service and nothing is lost. -/
def bootView (masterMask slaveMask : Byte) (index : Option Byte) (registerA : BitVec 7)
    (registerB : Byte) : View :=
  ⟨⟨masterChip (fun _ => false) masterMask, slaveChip (fun _ => false) slaveMask⟩, index, registerA,
    registerB, false⟩

theorem good_bootView {mm ms : Byte} {index : Option Byte} {A : BitVec 7} {B : Byte}
    (hmm : ∀ i : Fin 8, ¬ mm.getLsbD i = true → i ≤ 2) (hms : ms = 0xFF ∨ ms = 0xFE)
    (hb : ¬ mm.getLsbD 1 = true → Settings mm ms A B) :
    Good (A.extractLsb' 4 3) true (bootView mm ms index A B) where
  configured := by
    refine ⟨rfl, rfl, hmm, ?_⟩
    change ∀ i : Fin 8, ¬ ms.getLsbD i = true → i = 0
    rcases hms with rfl | rfl <;> decide
  divider := rfl
  booted := hb
  slaveIdle _ _ := rfl
  masterIdle _ _ _ := rfl
  notLost _ := rfl

namespace Sound

theorem enableMaster {irqNum : ℕ} (hirq : irqNum < 8) (hg : Good a true u)
    (hk : Sound a post exit
      (u.maskMaster ((u.pics.master.mask.setWidth 32 &&& ~~~bit irqNum).setWidth 8)) k) :
    Sound a post exit u (enableIrq irqNum k) := by
  rw [enableIrq, if_pos hirq]
  refine inb hg fun d hd => ?_
  change Sound a post exit (d.view true) (.outb _ 0x21 k)
  rw [hd]
  refine outb hg fun d' hd' => ?_
  have hm : d.pics.master.mask = u.pics.master.mask := congrArg (fun w => w.pics.master.mask) hd
  change Sound a post exit ((d'.write 0x21
    ((d.pics.master.mask.setWidth 32 &&& ~~~bit irqNum).setWidth 8)).view true) k
  rw [d'.write_maskMaster _ _ (master_ready (hd'.symm ▸ hg)), hd', hm]
  exact hk

/-- `rtc_init`, with the clock's interrupt masked. -/
theorem rtcInit {index : Byte} (hg : ∀ index, Good a true (u.masked index))
    (hk : Sound a post exit { u.masked 0x0B with registerB := u.registerB ||| 0x40 } k) :
    Sound a post exit (u.masked index) (rtcInit k) := by
  refine selectClock (hg index) (inb (hg 0x0B) fun d hd => ?_)
  obtain ⟨hread, hview⟩ := d.read_registerB (masked_cases (w := u) hd).2 true
  have hB : d.clock.registerB = u.registerB := congrArg View.registerB hd
  change Sound a post exit ((d.read 0x71).2.view true) _
  rw [hview, hd]
  refine selectClock (hg 0x0B) (outb (hg 0x0B) fun d' hd' => ?_)
  have hlost : d'.lost = false := (congrArg View.lost hd').trans ((hg 0x0B).notLost rfl)
  change Sound a post exit ((d'.write 0x71 ((d.read 0x71).1 ||| 0x40)).view true) _
  rw [d'.write_registerB _ (masked_cases (w := u) hd').2 hlost, hd', hread, hB]
  exact hk

theorem pitInit (hg : Good a true u) (hk : Sound a post exit u k) :
    Sound a post exit u (pitInit k) := by
  refine outb hg fun d hd => ?_
  rw [d.write_other _ (by decide), hd]
  refine outb hg fun d hd => ?_
  rw [d.write_other _ (by decide), hd]
  refine outb hg fun d hd => ?_
  rw [d.write_other _ (by decide), hd]
  exact hk

/-- `entry` behind `i8259_init` ends with every line enabled that has a handler. -/
theorem entry {index : Byte} {A : BitVec 7} {B : Byte} (hc : Entry c) :
    Sound (A.extractLsb' 4 3) post (fun w => UserView w ∧ w.pics.slave.mask = 0xFE)
      (bootView 0xFB 0xFF (some index) A B) c := by
  obtain ⟨h₁, h₂, h₃⟩ := hc
  have hdivider := rateWritten_divider 2 A
  have hline (mm : Byte) (h : mm = 0xFB ∨ mm = 0xFA) : (∀ i : Fin 8, ¬ mm.getLsbD i = true → i ≤ 2) ∧
      mm.getLsbD 1 = true := by
    rcases h with rfl | rfl <;> decide
  have hg (mm ms : Byte) (index : Option Byte) (A : BitVec 7) (B : Byte) (h : mm = 0xFB ∨ mm = 0xFA)
      (hms : ms = 0xFF ∨ ms = 0xFE) : Good (A.extractLsb' 4 3) true (bootView mm ms index A B) :=
    good_bootView (hline mm h).1 hms fun hn => absurd (hline mm h).2 hn
  have hset : Settings 0xF8 0xFE (rateWritten 2 A) (B ||| 0x40) := by
    refine ⟨rfl, Or.inl rfl, ?_, ?_⟩
    · rw [BitVec.getLsbD_or]
      exact Bool.or_true _
    · rw [rateWritten_rate]
      decide
  have hlast : Good (A.extractLsb' 4 3) true
      (bootView 0xF8 0xFE none (rateWritten 2 A) (B ||| 0x40)) :=
    hdivider ▸ good_bootView (by decide) (Or.inr rfl) fun _ => hset
  refine rtcInit (u := bootView 0xFB 0xFF (some index) A B)
    (fun index => hg 0xFB 0xFF (some index) A B (Or.inl rfl) (Or.inl rfl)) ?_
  refine rtcWrite (hg 0xFB 0xFF (some 0x0B) A (B ||| 0x40) (Or.inl rfl) (Or.inl rfl)) (Or.inr rfl)
    (fun h => absurd h (by decide)) fun _ => ?_
  have hg₁ : Good (A.extractLsb' 4 3) true (bootView 0xFB 0xFE none (rateWritten 2 A) (B ||| 0x40)) :=
    hdivider ▸ hg 0xFB 0xFE none (rateWritten 2 A) (B ||| 0x40) (Or.inl rfl) (Or.inr rfl)
  have hg₂ : Good (A.extractLsb' 4 3) true (bootView 0xFA 0xFE none (rateWritten 2 A) (B ||| 0x40)) :=
    hdivider ▸ hg 0xFA 0xFE none (rateWritten 2 A) (B ||| 0x40) (Or.inr rfl) (Or.inr rfl)
  refine enableClock hg₁ (Or.inl rfl) (pitInit hg₁
    (enableMaster (show 0 < 8 by decide) hg₁ ?_))
  have hFA : ((0xFB : Byte).setWidth 32 &&& ~~~bit 0).setWidth 8 = (0xFA : Byte) := by decide
  have hF8 : ((0xFA : Byte).setWidth 32 &&& ~~~bit 1).setWidth 8 = (0xF8 : Byte) := by decide
  change Sound _ _ _ (bootView (((0xFB : Byte).setWidth 32 &&& ~~~bit 0).setWidth 8) 0xFE none
    (rateWritten 2 A) (B ||| 0x40)) _
  rw [hFA]
  refine enableMaster (show 1 < 8 by decide) hg₂ ?_
  change Sound _ _ _ (bootView (((0xFA : Byte).setWidth 32 &&& ~~~bit 1).setWidth 8) 0xFE none
    (rateWritten 2 A) (B ||| 0x40)) _
  rw [hF8]
  have hidle : (bootView 0xF8 0xFE none (rateWritten 2 A) (B ||| 0x40)).pics.Idle :=
    fun i => ⟨rfl, rfl⟩
  have hend := endMaster_of_idle hidle
  refine display hlast (sti hlast (display hlast (execute hlast ?_ ?_ h₁) h₂)) h₃
  · rw [hend]
    exact ⟨⟨hidle, hset⟩, rfl⟩
  · rw [hend]
    exact spin hlast

end Sound

/-! ## Runs -/

/-- `i8259_init` sets up both chips and drops every latched request. -/
theorem i8259Init_alone (k : Code) (d : Devices) :
    board.alone (i8259Init k) d = board.alone k { d with
      pics := ⟨masterChip (fun _ => false) 0xFB, slaveChip (fun _ => false) 0xFF⟩
      requests := ⟨fun _ => false, fun _ => false⟩ } := by
  simp [i8259Init, Board.alone, board, Devices.write, Devices.writeMaster, Devices.writeSlave,
    Chip.writeCommand, Chip.writeData, Chip.afterBase, Chip.afterCascade, masterChip, slaveChip]

/-- The states in which `entry` stands behind `i8259_init`. The clock's line was low: no
clock interrupt was enabled before. -/
def Started (a : BitVec 3) (s : Cpu Devices) : Prop :=
  ∃ d c f, d.clock.line = false ∧ d.clock.registerA.extractLsb' 4 3 = a ∧ Entry c ∧
    s = ⟨board.alone (i8259Init .spin) d, f, c, []⟩

/-- Neither a system call nor a handler that leaves for user mode. -/
def SameCall (_ : Cpu Devices) (l : Label) (_ : Cpu Devices) : Prop := l ≠ .call ∧ l ≠ .abandon

variable {s s' s'' : Cpu Devices} {P : Cpu Devices → Label → Cpu Devices → Prop}

theorem Started.holds (hs : Started a s) :
    (observer a).Holds (fun w => UserView w ∧ w.pics.slave.mask = 0xFE) UserView s := by
  obtain ⟨d, c, f, hline, rfl, hc, rfl⟩ := hs
  have hsound : Sound _ (fun _ => False) _
      (bootView 0xFB 0xFF (some d.clock.index) d.clock.registerA d.clock.registerB) c :=
    Sound.entry hc
  rw [i8259Init_alone]
  refine hsound f _ ?_
  rw [Devices.view_true_of_masked (by simp [Board.alone, Chip.Masked, slaveChip])]
  simp [Board.alone, Devices.view, bootView, Devices.lost, hline]

theorem Good.rtcWritten (hg : Good a true u) (newFreq : ℕ) : Good a true (u.rtcWritten newFreq) where
  configured := by
    have hfirst : ∀ i : Fin 8, ¬ (0xFE : Byte).getLsbD i = true → i = 0 := by decide
    obtain ⟨hm, hs, hmm, -⟩ := hg.configured
    refine ⟨hm, ?_, hmm, hfirst⟩
    change { u.pics.slave with mask := 0xFE } = slaveChip u.pics.slave.service 0xFE
    rw [hs]
    rfl
  divider := (hg.rateWritten newFreq).divider
  booted hm := ⟨(hg.booted hm).master, Or.inl rfl, (hg.booted hm).periodic,
    ((hg.rateWritten newFreq).booted hm).rate⟩
  slaveIdle := hg.slaveIdle
  masterIdle := hg.masterIdle
  notLost := hg.notLost

/-- In user mode the keyboard is enabled. -/
theorem UserView.unmasked (h : UserView u) : ¬ u.pics.master.Masked 1 := by
  rw [Chip.Masked, h.booted.master]
  decide

theorem UserView.rtcWritten (h : UserView u) (hg : Good a true u) (newFreq : ℕ) :
    UserView (u.rtcWritten newFreq) :=
  ⟨h.idle, (hg.rtcWritten newFreq).booted h.unmasked⟩

/-- A system call from user mode, with what it is to end in. -/
theorem systemCall_sound {E : View → Prop} (hg : Good a true u) (huser : UserView u) (hE : E u)
    (hwrite : ∀ newFreq ≤ 1024, E (u.rtcWritten newFreq)) (hc : SystemCall c) :
    Sound a post E u c :=
  Sound.systemCall hg huser.idle hE
    (fun newFreq => Sound.rtcWrite hg huser.booted.slave (fun _ => Sound.cli hg (Sound.leave hg hE))
      fun hle => Sound.cli (hg.rtcWritten newFreq)
        (Sound.leave (hg.rtcWritten newFreq) (hwrite newFreq hle))) hc

/-- What holds in every reachable state. -/
theorem Started.run (hs : Started a s) (hrun : Run board Handler SystemCall P s s') :
    (observer a).Holds UserView UserView s' := by
  refine (hs.holds.mono fun w hw => hw.1).run (handlers_restore a) (fun _ _ _ h => h) ?_ hrun
  intro s c _ _ hc hg huser
  exact systemCall_sound hg huser huser (fun n _ => huser.rtcWritten hg n) hc true _ rfl

/-- A line that has a handler, if it is not masked. -/
def Devices.Enabled (d : Devices) (x : Pin) : Prop :=
  x = .master timerInput ∨ x = .master keyboardInput ∨
    (x = clockPin ∧ ¬ d.pics.slave.Masked clockInput)

/-- The vector that `i8259_init` gives a line. -/
def lineVector : Pin → Byte
  | .master i => 0x20 + BitVec.ofNat 8 i
  | .slave i => 0x28 + BitVec.ofNat 8 i

/-- The processor is given the line `x`, or a request of a higher priority, and `idt_init`
has installed a handler for its vector. -/
def Devices.Served (d : Devices) (x : Pin) : Prop :=
  ∃ y h, (y = x ∨ y.rank < x.rank) ∧ d.requests.pending y = true ∧
    d.accept = some (lineVector y, d.acknowledge y) ∧ Handler (lineVector y) h

theorem Configured.vector_eq {p : Pair} (hc : Configured p) (x : Pin) : p.vector x = lineVector x := by
  have hwords : ∀ i : Fin 8, (0x20 : Byte) ||| BitVec.ofNat 8 i = 0x20 + BitVec.ofNat 8 i ∧
      (0x28 : Byte) ||| BitVec.ofNat 8 i = 0x28 + BitVec.ofNat 8 i := by decide
  cases x with
  | master i =>
    rw [Pair.vector, hc.master]
    exact (hwords i).1
  | slave i =>
    rw [Pair.vector, hc.slave]
    exact (hwords i).2

theorem handled (hc : Configured d.pics) (h : d.accept = some (v, d')) : ∃ c, Handler v c := by
  rcases accept_cases hc h with ⟨rfl, -⟩ | ⟨rfl, -⟩ | ⟨rfl, -⟩
  · exact ⟨_, .pit⟩
  · exact ⟨_, .keyboard (fun _ => keyboardEnd) fun _ => .edit .done⟩
  · exact ⟨_, .rtc⟩

theorem served_of_idle (hc : Configured d.pics) (huser : UserView (d.view true)) {x : Pin}
    (hx : d.Enabled x) (hr : d.requests.pending x = true) : d.Served x := by
  have hmask : d.pics.master.mask = 0xF8 := huser.booted.master
  have hopen : ∀ i : Fin 8, i ≤ 2 → ¬ d.pics.master.Masked i := by
    have hbits : ∀ i : Fin 8, i ≤ 2 → ¬ (0xF8 : Byte).getLsbD i = true := by decide
    intro i hi
    rw [Chip.Masked, hmask]
    exact hbits i hi
  obtain ⟨y, hy, hreq, hrank⟩ :
      ∃ y, d.pics.select d.requests = some y ∧ d.requests.pending y = true ∧
        (y = x ∨ y.rank < x.rank) := by
    refine Pair.select_first hc.cascaded huser.idle hr ?_
    rcases hx with rfl | rfl | ⟨rfl, hclock⟩
    · exact ⟨by decide, hopen 0 (by decide)⟩
    · exact ⟨by decide, hopen 1 (by decide)⟩
    · exact ⟨hopen 2 (by decide), hclock⟩
  have haccept : d.accept = some (lineVector y, d.acknowledge y) := by
    rw [Devices.accept, hy, ← hc.vector_eq]
    rfl
  obtain ⟨h, hh⟩ := handled hc haccept
  exact ⟨y, h, hrank, hreq, haccept, hh⟩

/-- The devices as firmware leaves them, with the clock stopped from interrupting. -/
def firmware : Devices :=
  ⟨⟨⟨fun _ => false, 0xB8, 0x11, 0x08, 0x04, 0x01, .ready⟩,
    ⟨fun _ => false, 0x8E, 0x11, 0x70, 0x02, 0x01, .ready⟩⟩,
    ⟨fun _ => false, fun _ => false⟩, ⟨0x0D, 0x26, false, 0x02, 0b100⟩, 0⟩

/-- `entry` without its output to the screen. -/
def bareEntry : Code :=
  rtcInit <| rtcWrite 2 <| enableIrq 8 <| pitInit <| enableIrq 0 <| enableIrq 1 <| .sti <|
  sendEoi 1 <| .cli <| .cli .leave

def startedCpu : Cpu Devices := ⟨board.alone (i8259Init .spin) firmware, false, bareEntry, []⟩

/-- The processor after the 26 steps of `bareEntry`. -/
def bootedCpu : Cpu Devices := board.next^[26] startedCpu

theorem startedCpu_started : Started 2 startedCpu :=
  ⟨firmware, bareEntry, false, by decide, by decide, .intro (.start .done) .done .done, rfl⟩

theorem bootedCpu_run (hP : ∀ s l s', l = .exec ∨ l = .leave → P s l s') :
    Run board Handler SystemCall P startedCpu bootedCpu :=
  Run.next hP 26 startedCpu

/-- Line `x` requests, and its handler is entered. -/
def interrupted (s : Cpu Devices) (x : Pin) (h : Code) : Cpu Devices :=
  ⟨{ s.dev with requests := s.dev.requests.raise x }.acknowledge x, false, h, s.running :: s.stack⟩

theorem interrupted_run {x : Pin} {h : Code} (hP : ∀ s l s', l ≠ .call ∧ l ≠ .abandon → P s l s')
    (hflag : s.flag = true) (hx : x ≠ clockPin)
    (hsel : s.dev.pics.select (s.dev.requests.raise x) = some x)
    (hh : Handler (s.dev.pics.vector x) h) :
    Run board Handler SystemCall P s (interrupted s x h) := by
  obtain ⟨d, f, c, st⟩ := s
  obtain rfl : f = true := hflag
  have haccept : board.accept { d with requests := d.requests.raise x } =
      some (d.pics.vector x, { d with requests := d.requests.raise x }.acknowledge x) := by
    change Option.map _ (d.pics.select (d.requests.raise x)) = _
    rw [hsel]
    rfl
  exact (Relation.ReflTransGen.single ⟨.event, .event _ _ _ (.raise d x hx), hP _ _ _ (by decide)⟩).tail
    ⟨.interrupt, .interrupt _ _ haccept hh, hP _ _ _ (by decide)⟩

/-- A key is pressed. Its handler sets the flag again before it returns. -/
def keyCpu (s : Cpu Devices) : Cpu Devices :=
  board.next^[4] (interrupted s (.master keyboardInput) (keyboardHandler fun _ => keyboardEnd))

/-- The timer interrupts the end of the keyboard's handler, and both return. -/
def nestedCpu (s : Cpu Devices) : Cpu Devices :=
  board.next^[3] (interrupted (keyCpu s) (.master timerInput) pitHandler)

theorem nestedCpu_run (hP : ∀ s l s', l ≠ .call ∧ l ≠ .abandon → P s l s') (hflag : s.flag = true)
    (hkey : s.dev.pics.select (s.dev.requests.raise (.master keyboardInput)) =
      some (.master keyboardInput))
    (hvkey : s.dev.pics.vector (.master keyboardInput) = 0x21)
    (htimer : (keyCpu s).dev.pics.select ((keyCpu s).dev.requests.raise (.master timerInput)) =
      some (.master timerInput))
    (hvtimer : (keyCpu s).dev.pics.vector (.master timerInput) = 0x20) :
    Run board Handler SystemCall P s (nestedCpu s) := by
  have hnext : ∀ s l s', l = .exec ∨ l = .leave → P s l s' := by
    rintro s l s' (rfl | rfl)
    · exact hP s .exec s' (by decide)
    · exact hP s .leave s' (by decide)
  have hkeyHandler : Handler (s.dev.pics.vector (.master keyboardInput))
      (keyboardHandler fun _ => keyboardEnd) := by
    rw [hvkey]
    exact .keyboard (fun _ => keyboardEnd) fun _ => .edit .done
  have htimerHandler : Handler ((keyCpu s).dev.pics.vector (.master timerInput)) pitHandler := by
    rw [hvtimer]
    exact .pit
  exact ((interrupted_run hP hflag (by decide) hkey hkeyHandler).trans
    ((Run.next hnext 4 _).trans
      ((interrupted_run (s := keyCpu s) hP rfl (by decide) htimer htimerHandler).trans
        (Run.next hnext 3 _))))

/-- No interrupt finds an absent descriptor. In user mode interrupts are on, nothing is in
service, and a request of an enabled line is the next one served, unless a request of a
higher priority is. -/
theorem interrupts_served (hs : Started a s) (hrun : Run board Handler SystemCall P s s') :
    (∀ v d', s'.flag = true → s'.dev.accept = some (v, d') → ∃ h, Handler v h) ∧
    (s'.running = .user → s'.stack = [] →
      s'.flag = true ∧ s'.dev.pics.Idle ∧
      ∀ x, s'.dev.Enabled x → s'.dev.requests.pending x = true → s'.dev.Served x) := by
  have h := hs.run hrun
  have hc : Configured s'.dev.pics := h.good.configured
  refine ⟨fun v d' _ hv => handled hc hv, fun hu hst => ?_⟩
  obtain ⟨hflag, hg, huser⟩ := h.user hu hst
  exact ⟨hflag, huser.idle, fun x hx hr => served_of_idle hc huser hx hr⟩

theorem interrupts_served_booted : (nestedCpu bootedCpu).dev.pics.Idle ∧
    (nestedCpu bootedCpu).dev.Served clockPin :=
  have h := (interrupts_served (P := fun _ _ _ => True) startedCpu_started
    ((bootedCpu_run fun _ _ _ _ => trivial).trans
      (nestedCpu_run (fun _ _ _ _ => trivial) rfl rfl rfl rfl rfl))).2 rfl rfl
  ⟨h.2.1, h.2.2 clockPin (Or.inr (Or.inr ⟨rfl, by decide⟩)) rfl⟩

/-- The interrupts of the clock in a second. -/
def Clock.frequency (c : Clock) : ℕ := 32768 / 2 ^ ((c.registerA.setWidth 4).toNat - 1)

/-- `rtc_write` rounds up to a power of two. -/
theorem rtcRate_frequency {newFreq : ℕ} (h : newFreq ≤ 1024) :
    newFreq ≤ 32768 / 2 ^ (Kernel.rtcRate newFreq - 1) ∧
    (32768 / 2 ^ (Kernel.rtcRate newFreq - 1) = 2 ∨
      32768 / 2 ^ (Kernel.rtcRate newFreq - 1) < 2 * newFreq) := by
  unfold Kernel.rtcRate
  split_ifs <;> omega

/-- What `rtc_write` does to register A is what the kernel's model of it does. -/
theorem rateWritten_toNat (newFreq : ℕ) (registerA : BitVec 7) :
    (rateWritten newFreq registerA).toNat =
      (registerA.toNat &&& 0xF0) ||| Kernel.rtcRate newFreq := by
  have hbits : ∀ r : BitVec 7, (r &&& 0x70).toNat = r.toNat &&& 0xF0 := by decide
  rw [rateWritten, BitVec.toNat_or, hbits, BitVec.toNat_ofNat,
    Nat.mod_eq_of_lt (Nat.lt_trans (rtcRate_bounds newFreq).2 (by decide))]

/-- `rtc_write` called in any reachable state: in whatever order interrupts and device
events come, when it is back in user mode it has done what the atomic `rtcWrite` does. -/
theorem rtcWrite_interrupted (hs : Started a s) (hrun : Run board Handler SystemCall P s s')
    (hu : s'.running = .user) (hst : s'.stack = []) {buf : ℕ → UInt8}
    (hcall : Run board Handler SystemCall SameCall
      ⟨s'.dev, s'.flag, rtcWrite (wordAt buf 0) syscallReturn, []⟩ s'')
    (hu' : s''.running = .user) (hst' : s''.stack = []) :
    (∀ k : Kernel, k.rtc.registerA = s'.dev.clock.registerA.toNat →
      (k.rtcWrite buf).2.rtc.registerA = s''.dev.clock.registerA.toNat) ∧
    s''.dev.clock.registerB = s'.dev.clock.registerB ∧
    (wordAt buf 0 ≤ 1024 → s''.dev.Enabled clockPin ∧
      wordAt buf 0 ≤ s''.dev.clock.frequency ∧
      (s''.dev.clock.frequency = 2 ∨ s''.dev.clock.frequency < 2 * wordAt buf 0)) := by
  obtain ⟨hflag, hg, huser⟩ := (hs.run hrun).user hu hst
  let result : View :=
    if wordAt buf 0 ≤ 1024 then (s'.dev.view true).rtcWritten (wordAt buf 0) else s'.dev.view true
  have hsound : Sound a (fun _ => False) (fun w => w = result) (s'.dev.view true)
      (rtcWrite (wordAt buf 0) syscallReturn) := by
    refine Sound.rtcWrite hg huser.booted.slave (fun hlt => ?_) (fun hle => ?_)
    · exact Sound.cli hg (Sound.leave hg (if_neg (Nat.not_le_of_lt hlt)).symm)
    · exact Sound.cli (hg.rtcWritten _) (Sound.leave (hg.rtcWritten _) (if_pos hle).symm)
  have hstart : (observer a).Holds (fun w => w = result) UserView
      ⟨s'.dev, s'.flag, rtcWrite (wordAt buf 0) syscallReturn, []⟩ := hsound s'.flag s'.dev rfl
  have hend : (observer a).Holds (fun w => w = result) UserView s'' :=
    hstart.run (handlers_restore a) (fun _ _ hP => absurd rfl hP.2)
      (fun _ _ _ hP => absurd rfl hP.1) hcall
  obtain ⟨-, -, hview⟩ := hend.user hu' hst'
  change s''.dev.view true = result at hview
  by_cases hle : wordAt buf 0 ≤ 1024
  · have hres : result = (s'.dev.view true).rtcWritten (wordAt buf 0) := if_pos hle
    rw [hres] at hview
    have hA : s''.dev.clock.registerA = rateWritten (wordAt buf 0) s'.dev.clock.registerA :=
      congrArg View.registerA hview
    have hmask : s''.dev.pics.slave.mask = 0xFE := congrArg (fun w => w.pics.slave.mask) hview
    have hfreq : s''.dev.clock.frequency = 32768 / 2 ^ (Kernel.rtcRate (wordAt buf 0) - 1) := by
      rw [Clock.frequency, hA, rateWritten_rate]
    refine ⟨fun k hk => ?_, congrArg View.registerB hview,
      fun _ => ⟨Or.inr (Or.inr ⟨rfl, ?_⟩), ?_⟩⟩
    · rw [hA, rateWritten_toNat, Kernel.rtcWrite, if_neg (Nat.not_lt_of_le hle), hk]
    · rw [Chip.Masked, hmask]
      decide
    · rw [hfreq]
      exact rtcRate_frequency hle
  · have hres : result = s'.dev.view true := if_neg hle
    rw [hres] at hview
    refine ⟨fun k hk => ?_, congrArg View.registerB hview, fun h => absurd h hle⟩
    rw [Kernel.rtcWrite, if_pos (Nat.lt_of_not_le hle), hk]
    exact (congrArg (fun w => w.registerA.toNat) hview).symm

/-- A program asks for 100 interrupts a second. -/
def askedCpu : Cpu Devices :=
  ⟨bootedCpu.dev, bootedCpu.flag, rtcWrite (wordAt (fun i => if i = 0 then 100 else 0) 0)
    syscallReturn, []⟩

/-- A key and the timer interrupt `rtc_write` between its reading register A and its
writing it. -/
theorem rtcWrite_interrupted_booted :
    (board.next^[6] (nestedCpu (board.next^[4] askedCpu))).dev.clock.frequency = 2 ∨
      (board.next^[6] (nestedCpu (board.next^[4] askedCpu))).dev.clock.frequency < 2 * 100 :=
  have hnext : ∀ s l s', l = .exec ∨ l = .leave → SameCall s l s' := by
    rintro s l s' (rfl | rfl)
    · exact ⟨by decide, by decide⟩
    · exact ⟨by decide, by decide⟩
  ((rtcWrite_interrupted (P := fun _ _ _ => True) startedCpu_started
    (bootedCpu_run fun _ _ _ _ => trivial) rfl rfl
    ((Run.next hnext 4 askedCpu).trans
      ((nestedCpu_run (fun _ _ _ h => h) rfl rfl rfl rfl rfl).trans (Run.next hnext 6 _)))
    rfl rfl).2.2 (by decide)).2.2

end KudOS.Hardware
