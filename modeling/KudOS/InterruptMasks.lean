import KudOS.InterruptRuns

/-!
# The masks behind any sequence of calls

`enable_irq` and `disable_irq` read a mask back from its chip and change one bit of it. The
number they are given is not checked, and the bit is shifted by it.
-/

namespace KudOS.Hardware

open Interrupts Pic

/-- A call of `enable_irq` or `disable_irq`. -/
structure IrqCall where
  enable : Bool
  irqNum : ℕ

def IrqCall.code (c : IrqCall) (k : Code) : Code :=
  if c.enable then enableIrq c.irqNum k else disableIrq c.irqNum k

def irqCalls (l : List IrqCall) : Code := l.foldr IrqCall.code .iret

def Devices.maskBit (d : Devices) (n : ℕ) : Bool :=
  if n < 8 then d.pics.master.mask.getLsbD n else d.pics.slave.mask.getLsbD (n - 8)

/-- The line whose bit a call changes. From 16 on there is none: the bit is cut off. -/
def IrqCall.line (c : IrqCall) : ℕ := if c.irqNum < 8 then c.irqNum else 8 + (c.irqNum - 8) % 32

/-- The last call for line `n` decides; without one only the cascade is enabled. -/
def lastEnables (l : List IrqCall) (n : ℕ) : Bool :=
  l.foldl (fun b c => if c.line = n then c.enable else b) (n == 2)

variable {n i : ℕ} {m : Byte} {d : Devices} {c : IrqCall} {l : List IrqCall} {k : Code}

theorem getLsbD_bit : (bit n).getLsbD i = decide (i = n % 32) := by
  have hn : n % 32 < 32 := Nat.mod_lt n (by decide)
  rw [bit, BitVec.getLsbD_shiftLeft, BitVec.getLsbD_one]
  by_cases h : i = n % 32
  · simp [h, hn]
  · have hlt : i < n % 32 ∨ i - n % 32 ≠ 0 := by omega
    rcases hlt with hlt | hne
    · simp [h, hlt]
    · simp [h, hne]

theorem getLsbD_enabled (hi : i < 8) :
    ((m.setWidth 32 &&& ~~~bit n).setWidth 8).getLsbD i =
      (m.getLsbD i && !decide (i = n % 32)) := by
  rw [BitVec.getLsbD_setWidth, BitVec.getLsbD_and, BitVec.getLsbD_setWidth, BitVec.getLsbD_not,
    getLsbD_bit]
  have hi' : i < 32 := by omega
  simp [-BitVec.getLsbD_eq_getElem, hi, hi']

theorem getLsbD_disabled (hi : i < 8) :
    ((m.setWidth 32 ||| bit n).setWidth 8).getLsbD i = (m.getLsbD i || decide (i = n % 32)) := by
  rw [BitVec.getLsbD_setWidth, BitVec.getLsbD_or, BitVec.getLsbD_setWidth, getLsbD_bit]
  have hi' : i < 32 := by omega
  simp [-BitVec.getLsbD_eq_getElem, hi, hi']

/-- Both chips expect masks at their data ports. -/
def Devices.Ready (d : Devices) : Prop :=
  d.pics.master.stage = .ready ∧ d.pics.slave.stage = .ready

/-- The byte that a call writes back. -/
def IrqCall.newMask (c : IrqCall) (n : ℕ) (m : Byte) : Byte :=
  if c.enable then (m.setWidth 32 &&& ~~~bit n).setWidth 8 else (m.setWidth 32 ||| bit n).setWidth 8

theorem getLsbD_newMask (hi : i < 8) :
    (c.newMask n m).getLsbD i = if i = n % 32 then !c.enable else m.getLsbD i := by
  unfold IrqCall.newMask
  cases c.enable with
  | true =>
    rw [if_pos rfl, getLsbD_enabled hi]
    by_cases h : i = n % 32 <;> simp [-BitVec.getLsbD_eq_getElem, h]
  | false =>
    rw [if_neg Bool.false_ne_true, getLsbD_disabled hi]
    by_cases h : i = n % 32 <;> simp [-BitVec.getLsbD_eq_getElem, h]

theorem alone_master (hc : c.irqNum < 8) (k : Code) (d : Devices) :
    board.alone (c.code k) d =
      board.alone k (d.write 0x21 (c.newMask c.irqNum d.pics.master.mask)) := by
  unfold IrqCall.code IrqCall.newMask enableIrq disableIrq
  cases c.enable with
  | true =>
    rw [if_pos rfl, if_pos hc, if_pos rfl]
    rfl
  | false =>
    rw [if_neg Bool.false_ne_true, if_pos hc, if_neg Bool.false_ne_true]
    rfl

theorem alone_slave (hc : ¬ c.irqNum < 8) (k : Code) (d : Devices) :
    board.alone (c.code k) d =
      board.alone k (d.write 0xA1 (c.newMask (c.irqNum - 8) d.pics.slave.mask)) := by
  unfold IrqCall.code IrqCall.newMask enableIrq disableIrq
  cases c.enable with
  | true =>
    rw [if_pos rfl, if_neg hc, if_pos rfl]
    rfl
  | false =>
    rw [if_neg Bool.false_ne_true, if_neg hc, if_neg Bool.false_ne_true]
    rfl

/-- One call sets one mask bit, on whichever chip it is. -/
theorem alone_irqCall (hd : d.Ready) (c : IrqCall) (k : Code) :
    ∃ d' : Devices, board.alone (c.code k) d = board.alone k d' ∧ d'.Ready ∧
      ∀ n < 16, d'.maskBit n = if n = c.line then !c.enable else d.maskBit n := by
  unfold IrqCall.line
  by_cases hc8 : c.irqNum < 8
  · refine ⟨_, alone_master hc8 k d, ?_⟩
    have hwrite : d.write 0x21 (c.newMask c.irqNum d.pics.master.mask) = { d with
        pics := { d.pics with master :=
          { d.pics.master with mask := c.newMask c.irqNum d.pics.master.mask } } } := by
      rw [Devices.write, if_neg (by decide), if_pos rfl, Chip.writeData_ready hd.1]
    rw [hwrite]
    refine ⟨hd, fun n hn => ?_⟩
    unfold Devices.maskBit
    rw [if_pos hc8]
    by_cases hn8 : n < 8
    · rw [if_pos hn8, if_pos hn8, getLsbD_newMask hn8, Nat.mod_eq_of_lt (by omega)]
    · rw [if_neg hn8, if_neg hn8, if_neg (by omega)]
  · refine ⟨_, alone_slave hc8 k d, ?_⟩
    have hwrite : d.write 0xA1 (c.newMask (c.irqNum - 8) d.pics.slave.mask) = { d with
        pics := { d.pics with slave :=
          { d.pics.slave with mask := c.newMask (c.irqNum - 8) d.pics.slave.mask } } } := by
      rw [Devices.write, if_neg (by decide), if_neg (by decide), if_neg (by decide), if_pos rfl,
        Chip.writeData_ready hd.2]
    rw [hwrite]
    refine ⟨hd, fun n hn => ?_⟩
    unfold Devices.maskBit
    rw [if_neg hc8]
    by_cases hn8 : n < 8
    · rw [if_pos hn8, if_pos hn8, if_neg (by omega)]
    · rw [if_neg hn8, if_neg hn8, getLsbD_newMask (by omega)]
      have hiff : n - 8 = (c.irqNum - 8) % 32 ↔ n = 8 + (c.irqNum - 8) % 32 := by omega
      simp only [hiff]

/-- A sequence of calls, from any masks. -/
theorem alone_irqCalls (hd : d.Ready) (l : List IrqCall) (hn : n < 16) :
    (board.alone (irqCalls l) d).maskBit n =
      !l.foldl (fun b c => if c.line = n then c.enable else b) (!d.maskBit n) := by
  induction l generalizing d with
  | nil => exact (Bool.not_not _).symm
  | cons c l ih =>
    obtain ⟨d', hrun, hd', hbit⟩ := alone_irqCall hd c (irqCalls l)
    change (board.alone (c.code (irqCalls l)) d).maskBit n = _
    rw [hrun, ih hd', List.foldl_cons, hbit n hn]
    by_cases h : n = c.line
    · rw [if_pos h, if_pos h.symm, Bool.not_not]
    · rw [if_neg h, if_neg (Ne.symm h)]

/-- After `i8259_init` and any calls, a line is masked unless its last call enabled it.
Whatever number a call was given, it changes no other line than its own. -/
theorem irq_masks (d : Devices) (l : List IrqCall) (hn : n < 16) :
    (board.alone (irqCalls l) (board.alone (i8259Init .iret) d)).maskBit n = !lastEnables l n := by
  have hstart : ∀ n < 16,
      (!(if n < 8 then (0xFB : Byte).getLsbD n else (0xFF : Byte).getLsbD (n - 8))) =
        (n == 2) := by decide
  rw [i8259Init_alone]
  refine (alone_irqCalls ⟨rfl, rfl⟩ l hn).trans ?_
  rw [lastEnables, ← hstart n hn]
  rfl

/-- Line 40 is line 8. -/
theorem irq_masks_wrap : (board.alone (irqCalls [⟨true, 1⟩, ⟨false, 8⟩, ⟨false, 17⟩, ⟨true, 40⟩])
    (board.alone (i8259Init .iret) firmware)).maskBit 8 = false :=
  irq_masks (n := 8) firmware [⟨true, 1⟩, ⟨false, 8⟩, ⟨false, 17⟩, ⟨true, 40⟩] (by decide)

end KudOS.Hardware
