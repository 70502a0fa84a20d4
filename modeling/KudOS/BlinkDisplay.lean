import KudOS.BlinkList

/-!
# What blinking characters show

A structure counts down the ticks of its state, on or off. Its phase is the number of ticks
since it was switched on. As long as the synchronisation does not turn a structure on, its
character is the one that its phase says. `mp1_ioctl_sync` always shows `off_char`.
-/

namespace KudOS.Blink

variable {s s' : State} {b : BlinkStruct} {l l' : List ℕ} {i : ℕ} {r : ℤ} {c : Call}
  {vmem : ℕ → UInt8} {cs p q : List Call}

namespace BlinkStruct

def shownChar (b : BlinkStruct) : UInt8 := if b.status &&& 1 = 0 then b.offChar else b.onChar

def period (b : BlinkStruct) : ℕ := b.onLength.toNat + b.offLength.toNat

/-- First `on_length` ticks on, then `off_length` ticks off. -/
def phase (b : BlinkStruct) : ℕ :=
  if b.status &&& 1 = 0 then b.period - b.countdown.toNat
  else b.onLength.toNat - b.countdown.toNat

theorem shownChar_of_off (h : b.status &&& 1 = 0) : b.shownChar = b.offChar := if_pos h

theorem shownChar_of_on (h : ¬ b.status &&& 1 = 0) : b.shownChar = b.onChar := if_neg h

theorem phase_of_off (h : b.status &&& 1 = 0) : b.phase = b.period - b.countdown.toNat := if_pos h

theorem phase_of_on (h : ¬ b.status &&& 1 = 0) :
    b.phase = b.onLength.toNat - b.countdown.toNat := if_neg h

/-- What the tasklet does not change. -/
def settings (b : BlinkStruct) : BlinkStruct := { b with countdown := 0, status := 0, next := none }

end BlinkStruct

/-! ## One structure -/

/-- The lengths are positive as signed words, and the countdown has not run out. -/
structure Counting (b : BlinkStruct) : Prop where
  status : b.status = 0 ∨ b.status = 1
  onLength : 1 ≤ b.onLength.toNat ∧ b.onLength.toNat ≤ 32767
  offLength : 1 ≤ b.offLength.toNat ∧ b.offLength.toNat ≤ 32767
  countdown_pos : 1 ≤ b.countdown.toNat
  countdown_le : b.countdown.toNat ≤
    if b.status &&& 1 = 0 then b.offLength.toNat else b.onLength.toNat

theorem Counting.le_onLength (h : Counting b) (hon : ¬ b.status &&& 1 = 0) :
    b.countdown.toNat ≤ b.onLength.toNat := by
  have hle := h.countdown_le
  rwa [if_neg hon] at hle

theorem Counting.le_offLength (h : Counting b) (hoff : b.status &&& 1 = 0) :
    b.countdown.toNat ≤ b.offLength.toNat := by
  have hle := h.countdown_le
  rwa [if_pos hoff] at hle

theorem Counting.phase_lt_iff (h : Counting b) :
    b.phase < b.onLength.toNat ↔ ¬ b.status &&& 1 = 0 := by
  have hpos := h.countdown_pos
  have hlength := h.onLength
  by_cases hoff : b.status &&& 1 = 0
  · have hle := h.le_offLength hoff
    rw [BlinkStruct.phase_of_off hoff, BlinkStruct.period]
    exact iff_of_false (by omega) (not_not_intro hoff)
  · rw [BlinkStruct.phase_of_on hoff]
    exact iff_of_true (by omega) hoff

theorem Counting.phase_lt_period (h : Counting b) : b.phase < b.period := by
  have hpos := h.countdown_pos
  have hon := h.onLength
  rw [BlinkStruct.phase, BlinkStruct.period]
  split <;> omega

/-- The phase says what is shown. -/
theorem Counting.shownChar_eq (h : Counting b) :
    b.shownChar = if b.phase < b.onLength.toNat then b.onChar else b.offChar := by
  by_cases hoff : b.status &&& 1 = 0
  · rw [BlinkStruct.shownChar_of_off hoff, if_neg fun hlt => h.phase_lt_iff.mp hlt hoff]
  · rw [BlinkStruct.shownChar_of_on hoff, if_pos (h.phase_lt_iff.mpr hoff)]

theorem toInt16_pos_iff {x : UInt16} (hx : x.toNat < 32768) : 0 < x.toInt16 ↔ 0 < x.toNat := by
  have hsigned : x.toInt16.toInt =
      if 2 * x.toNat < 2 ^ 16 then (x.toNat : ℤ) else x.toNat - ((2 ^ 16 : ℕ) : ℤ) := rfl
  have hzero : (0 : Int16).toInt = 0 := rfl
  rw [Int16.lt_iff_toInt_lt, hsigned, hzero, if_pos (by omega)]
  omega

theorem Counting.countdown_sub (h : Counting b) :
    (b.countdown - 1).toNat = b.countdown.toNat - 1 := by
  have hpos := h.countdown_pos
  exact UInt16.toNat_sub_of_le _ _ (UInt16.le_iff_toNat_le.mpr hpos)

theorem Counting.running_iff (h : Counting b) :
    0 < (b.countdown - 1).toInt16 ↔ 1 < b.countdown.toNat := by
  have hle := h.countdown_le
  have hon := h.onLength
  have hoff := h.offLength
  have hsmall : b.countdown.toNat ≤ 32767 := by
    split at hle <;> omega
  rw [toInt16_pos_iff (by rw [h.countdown_sub]; omega), h.countdown_sub]
  omega

/-- The tick of the tasklet is one step of the phase, and shows the next character. -/
structure TickStep (b b' : BlinkStruct) (c : UInt8) : Prop where
  counting : Counting b'
  phase : b'.phase = (b.phase + 1) % b.period
  shown : c = b'.shownChar

theorem Counting.tick_running (h : Counting b) (hrun : 1 < b.countdown.toNat) :
    TickStep b { b with countdown := b.countdown - 1 } b.shownChar := by
  have hsub := h.countdown_sub
  have hlength := h.offLength
  refine ⟨⟨h.status, h.onLength, hlength, ?_, ?_⟩, ?_, rfl⟩
  · change 1 ≤ (b.countdown - 1).toNat
    omega
  · change (b.countdown - 1).toNat ≤ _
    rw [hsub]
    exact (Nat.sub_le _ 1).trans h.countdown_le
  · have hperiod : b.period = b.onLength.toNat + b.offLength.toNat := rfl
    by_cases hoff : b.status &&& 1 = 0
    · have hle := h.le_offLength hoff
      have hnext : BlinkStruct.phase { b with countdown := b.countdown - 1 } =
          b.period - (b.countdown - 1).toNat := BlinkStruct.phase_of_off hoff
      rw [hnext, BlinkStruct.phase_of_off hoff, hsub, Nat.mod_eq_of_lt (by omega)]
      omega
    · have hle := h.le_onLength hoff
      have hnext : BlinkStruct.phase { b with countdown := b.countdown - 1 } =
          b.onLength.toNat - (b.countdown - 1).toNat := BlinkStruct.phase_of_on hoff
      rw [hnext, BlinkStruct.phase_of_on hoff, hsub, Nat.mod_eq_of_lt (by omega)]
      omega

theorem Counting.tick_on (h : Counting b) (hend : b.countdown.toNat = 1) (hoff : b.status = 0) :
    TickStep b { b with countdown := b.onLength, status := 1 } b.onChar := by
  have hon := h.onLength
  have hbit : ¬ (1 : UInt16) &&& 1 = 0 := by decide
  have hbefore : b.status &&& 1 = 0 := by rw [hoff]; decide
  refine ⟨⟨Or.inr rfl, hon, h.offLength, hon.1, ?_⟩, ?_, (if_neg hbit).symm⟩
  · exact Nat.le_of_eq (if_neg hbit).symm
  · have hperiod : b.period = b.onLength.toNat + b.offLength.toNat := rfl
    have hnext : BlinkStruct.phase { b with countdown := b.onLength, status := 1 } =
        b.onLength.toNat - b.onLength.toNat := BlinkStruct.phase_of_on hbit
    rw [hnext, Nat.sub_self, BlinkStruct.phase_of_off hbefore, hend,
      Nat.sub_add_cancel (by omega), Nat.mod_self]

theorem Counting.tick_off (h : Counting b) (hend : b.countdown.toNat = 1) (hon : b.status = 1) :
    TickStep b { b with countdown := b.offLength, status := 0 } b.offChar := by
  have hlength := h.onLength
  have hoff := h.offLength
  have hbit : (0 : UInt16) &&& 1 = 0 := by decide
  have hbefore : ¬ b.status &&& 1 = 0 := by rw [hon]; decide
  refine ⟨⟨Or.inl rfl, hlength, hoff, hoff.1, ?_⟩, ?_, (if_pos hbit).symm⟩
  · exact Nat.le_of_eq (if_pos hbit).symm
  · have hperiod : b.period = b.onLength.toNat + b.offLength.toNat := rfl
    have hnext : BlinkStruct.phase { b with countdown := b.offLength, status := 0 } =
        b.onLength.toNat + b.offLength.toNat - b.offLength.toNat := BlinkStruct.phase_of_off hbit
    rw [hnext, Nat.add_sub_cancel, BlinkStruct.phase_of_on hbefore, hend,
      Nat.sub_add_cancel hlength.1, Nat.mod_eq_of_lt (by omega)]

theorem Counting.tick (h : Counting b) :
    TickStep b (tickStruct b) (tickChar b b.shownChar) := by
  have hpos := h.countdown_pos
  rw [tickStruct, tickChar]
  by_cases hrun : 0 < (b.countdown - 1).toInt16
  · rw [if_pos hrun, if_pos hrun]
    exact h.tick_running (h.running_iff.mp hrun)
  · rw [if_neg hrun, if_neg hrun]
    rw [h.running_iff] at hrun
    rcases h.status with hoff | hon
    · rw [hoff]
      exact h.tick_on (by omega) hoff
    · rw [hon]
      exact h.tick_off (by omega) hon

/-! ## All structures of the list -/

/-- Locations are distinct and on the screen, and lengths are positive as signed words. -/
structure Fits (s : State) (l : List ℕ) : Prop where
  distinct : ∀ i ∈ l, ∀ j ∈ l, (s.blinkArray j).location = (s.blinkArray i).location → j = i
  location : ∀ i ∈ l, 1 ≤ (s.blinkArray i).location.toNat ∧ (s.blinkArray i).location.toNat ≤ 1999
  onLength : ∀ i ∈ l, 1 ≤ (s.blinkArray i).onLength.toNat ∧ (s.blinkArray i).onLength.toNat ≤ 32767
  offLength : ∀ i ∈ l,
    1 ≤ (s.blinkArray i).offLength.toNat ∧ (s.blinkArray i).offLength.toNat ≤ 32767

theorem Fits.place_inj (h : Fits s l) {j : ℕ} (hi : i ∈ l) (hj : j ∈ l)
    (hplace : s.place j = s.place i) : j = i := by
  rw [State.place, State.place] at hplace
  exact h.distinct i hi j hj (UInt16.toNat_inj.mp (by omega))

structure Shows (s : State) (l : List ℕ) : Prop where
  counting : ∀ i ∈ l, Counting (s.blinkArray i)
  shown : ∀ i ∈ l, s.vmem (s.place i) = (s.blinkArray i).shownChar

/-- A successful `mp1_ioctl_sync` copies from a structure that is off, or to one whose two
characters are the same. -/
def SyncShown (s : State) (c : Call) : Prop :=
  ∀ arg esi edi, c = .sync arg → mp1FindHelper s (arg >>> 16).toUInt16 = some (some esi) →
    mp1FindHelper s (arg &&& 0xFFFF).toUInt16 = some (some edi) →
    (s.blinkArray esi).status &&& 1 = 0 ∨ (s.blinkArray edi).onChar = (s.blinkArray edi).offChar

theorem Counting.of_unlinked {b' : BlinkStruct} (h : Counting b)
    (heq : b'.unlinked = b.unlinked) : Counting b' := by
  have h' : Counting b.unlinked := ⟨h.status, h.onLength, h.offLength, h.countdown_pos, h.countdown_le⟩
  rw [← heq] at h'
  exact ⟨h'.status, h'.onLength, h'.offLength, h'.countdown_pos, h'.countdown_le⟩

theorem Counting.syncCopy {esi edi : BlinkStruct} (h : Counting esi) :
    Counting (syncCopy esi edi) :=
  ⟨h.status, h.onLength, h.offLength, h.countdown_pos, h.countdown_le⟩

theorem newStruct_counting {arg : BlinkStruct}
    (hon : 1 ≤ arg.onLength.toNat ∧ arg.onLength.toNat ≤ 32767)
    (hoff : 1 ≤ arg.offLength.toNat ∧ arg.offLength.toNat ≤ 32767) :
    Counting (newStruct s arg) := by
  have hbit : ¬ (1 : UInt16) &&& 1 = 0 := by decide
  exact ⟨Or.inr rfl, hon, hoff, hon.1, Nat.le_of_eq (if_neg hbit).symm⟩

theorem Step.counting (h : Inv s l) (hstep : Step s l c s' r l')
    (hcounting : ∀ i ∈ l, Counting (s.blinkArray i)) (hfits : Fits s' l') :
    ∀ i ∈ l', Counting (s'.blinkArray i) := by
  cases hstep with
  | failed | found => exact hcounting
  | added hfree hlocation hhead hnew hold hvmem =>
    have hi := h.malloc_notMem hfree
    have hon := hfits.onLength _ List.mem_cons_self
    have hoff := hfits.offLength _ List.mem_cons_self
    intro j hj
    rcases List.mem_cons.mp hj with rfl | hj
    · rw [hnew] at hon hoff ⊢
      exact newStruct_counting hon hoff
    · rw [hold j fun hji => hi (hji ▸ hj)]
      exact hcounting j hj
  | removed hl hfind hbefore hi hlists hothers hvmem =>
    subst hl
    intro j hj
    exact (hcounting j (mem_of_removed hj _)).of_unlinked (hothers j hj)
  | @synced arg esi edi hesi hesil hedi hedil =>
    intro j hj
    rw [syncedState_blinkArray]
    split
    · exact (hcounting esi hesil).syncCopy
    · exact hcounting j hj
  | ticked hres =>
    intro j hj
    rw [hres.listed j hj]
    exact (hcounting j hj).tick.counting

/-- One call, as long as a synchronisation does not show the wrong character. -/
theorem Step.shows (h : Inv s l) (hstep : Step s l c s' r l') (hshows : Shows s l)
    (hfits : Fits s l) (hfits' : Fits s' l') (hsync : SyncShown s c) : Shows s' l' := by
  refine ⟨hstep.counting h hshows.counting hfits', ?_⟩
  cases hstep with
  | failed | found => exact hshows.shown
  | @added arg i s' hfree hlocation hhead hnew hold hvmem =>
    have hi := h.malloc_notMem hfree
    have hplace : s'.place i = 2 * arg.location.toNat := by
      rw [State.place, hnew]
      rfl
    have hbit : ¬ (1 : UInt16) &&& 1 = 0 := by decide
    intro j hj
    by_cases hji : j = i
    · subst hji
      rw [hplace, hvmem, Function.update_self, hnew]
      exact (if_neg hbit).symm
    · have hjl : j ∈ l := (List.mem_cons.mp hj).resolve_left hji
      have hother : s'.place j ≠ 2 * arg.location.toNat := by
        rw [← hplace]
        exact fun heq => hji (hfits'.place_inj List.mem_cons_self hj heq)
      rw [hvmem, Function.update_of_ne hother, State.place, hold j hji]
      exact hshows.shown j hjl
  | removed hl hfind hbefore hi hlists hothers hvmem =>
    subst hl
    intro j hj
    have hlocation : s'.place j = s.place j :=
      congrArg (fun b => 2 * b.location.toNat) (hothers j hj)
    have hchar : (s'.blinkArray j).shownChar = (s.blinkArray j).shownChar :=
      (congrArg BlinkStruct.shownChar (hothers j hj) :)
    rw [hvmem, hlocation, hchar]
    exact hshows.shown j (mem_of_removed hj _)
  | @synced arg esi edi hesi hesil hedi hedil =>
    intro j hj
    have hplace : (syncedState s esi edi).place j = s.place j := by
      rw [State.place, (syncedState_unchanged s esi edi j).2, State.place]
    rw [hplace, syncedState_blinkArray]
    by_cases hji : j = edi
    · subst hji
      rw [if_pos rfl, show (syncedState s esi j).vmem _ = _ from Function.update_self ..]
      by_cases hoff : (s.blinkArray esi).status &&& 1 = 0
      · exact (if_pos hoff).symm
      · have hsame := (hsync arg esi j rfl hesi hedi).resolve_left hoff
        exact hsame.symm.trans (if_neg hoff).symm
    · have hother : s.place j ≠ s.place edi := fun heq => hji (hfits.place_inj hedil hj heq)
      rw [if_neg hji, show (syncedState s esi edi).vmem _ = _ from Function.update_of_ne hother ..]
      exact hshows.shown j hj
  | ticked hres =>
    intro j hj
    have hplace : s'.place j = s.place j := by
      rw [State.place, State.place, hres.listed j hj, (tickStruct_unchanged _).2.1]
    rw [hplace, hres.shown j hj fun k hk heq => hfits.place_inj hj hk heq, hres.listed j hj,
      hshows.shown j hj]
    exact (hshows.counting j hj).tick.shown

/-! ## One structure over a run -/

def Call.isTick : Call → Bool
  | .tick => true
  | _ => false

def ticks (cs : List Call) : ℕ := cs.countP Call.isTick

/-- The call takes structure `i` out of the list, or synchronises it. -/
def Disturbs (s : State) (i : ℕ) : Call → Prop
  | .remove arg => mp1FindHelper s arg.toUInt16 = some (some i)
  | .sync arg => (∃ esi, mp1FindHelper s (arg >>> 16).toUInt16 = some (some esi)) ∧
      mp1FindHelper s (arg &&& 0xFFFF).toUInt16 = some (some i)
  | _ => False

/-- The structure `i` has the same settings as `b`, and its phase is `n` ticks later. -/
structure Later (b : BlinkStruct) (n : ℕ) (s : State) (l : List ℕ) (i : ℕ) : Prop where
  mem : i ∈ l
  settings : (s.blinkArray i).settings = b.settings
  phase : (s.blinkArray i).phase = (b.phase + n) % b.period

theorem Counting.later_zero (h : Counting (s.blinkArray i)) (hi : i ∈ l) :
    Later (s.blinkArray i) 0 s l i :=
  ⟨hi, rfl, by rw [Nat.add_zero, Nat.mod_eq_of_lt h.phase_lt_period]⟩

theorem Later.congr {n : ℕ} (h : Later b n s l i) (hi : i ∈ l')
    (heq : (s'.blinkArray i).unlinked = (s.blinkArray i).unlinked) : Later b n s' l' i := by
  refine ⟨hi, ?_, ?_⟩
  · rw [← h.settings]
    exact (congrArg BlinkStruct.settings heq :)
  · rw [← h.phase]
    exact (congrArg BlinkStruct.phase heq :)

theorem tickStruct_settings (b : BlinkStruct) : (tickStruct b).settings = b.settings := by
  rw [tickStruct]
  split <;> rfl

/-- A call that does not concern the structure leaves it to the ticks. -/
theorem Step.later {n : ℕ} (h : Inv s l) (hstep : Step s l c s' r l')
    (hcounting : Counting (s.blinkArray i)) (hlater : Later b n s l i) (hfree : ¬ Disturbs s i c) :
    Later b (n + if c.isTick then 1 else 0) s' l' i := by
  cases hstep with
  | failed hc =>
    cases c with
    | tick => exact absurd rfl hc
    | add | remove | find | sync => exact hlater
  | found => exact hlater
  | added hmalloc hlocation hhead hnew hold hvmem =>
    have hne := h.malloc_notMem hmalloc
    refine hlater.congr (List.mem_cons_of_mem _ hlater.mem) ?_
    rw [hold i fun heq => hne (heq ▸ hlater.mem)]
  | @removed arg x y k s' hl hfind hbefore hk hlists hothers hvmem =>
    subst hl
    have hne : i ≠ k := fun hik => hfree (hik ▸ hfind)
    have hmem : i ∈ x ++ y := by simpa [hne] using hlater.mem
    exact hlater.congr hmem (hothers i hmem)
  | @synced arg esi edi hesi hesil hedi hedil =>
    have hne : i ≠ edi := by
      rintro rfl
      exact hfree ⟨⟨esi, hesi⟩, hedi⟩
    refine hlater.congr hlater.mem ?_
    rw [syncedState_blinkArray, if_neg hne]
  | ticked hres =>
    have hstruct := hres.listed i hlater.mem
    have hperiod : (s.blinkArray i).period = b.period :=
      (congrArg BlinkStruct.period hlater.settings :)
    refine ⟨hlater.mem, ?_, ?_⟩
    · rw [hstruct, tickStruct_settings, hlater.settings]
    · rw [hstruct, hcounting.tick.phase, hlater.phase, hperiod, Nat.mod_add_mod, Nat.add_assoc]
      rfl

/-! ## Runs -/

/-- Listed structures fit in every state of the run. -/
def FitsAll (vmem : ℕ → UInt8) (cs : List Call) : Prop :=
  ∀ p, p <+: cs → ∀ s l, after vmem p = some s → s.Lists l → Fits s l

/-- No synchronisation of the run shows the wrong character. -/
def SyncsShown (vmem : ℕ → UInt8) (cs : List Call) : Prop :=
  EachNext (fun p c => ∀ s, after vmem p = some s → SyncShown s c) cs

/-- In every state the structures show the characters of their states. From any state on, a
structure that is not disturbed shows its two characters in turn, each for its length. -/
structure Blinks (vmem : ℕ → UInt8) (cs : List Call) : Prop where
  displayed : ∀ p, p <+: cs → ∃ s l, after vmem p = some s ∧ s.Lists l ∧
    ∀ i ∈ l, s.vmem (s.place i) = (s.blinkArray i).shownChar
  alternates : ∀ p q, p ++ q <+: cs → ∀ s l i, after vmem p = some s → s.Lists l → i ∈ l →
    EachNext (fun q' c => ∀ u, after vmem (p ++ q') = some u → ¬ Disturbs u i c) q →
    ∃ s', after vmem (p ++ q) = some s' ∧ s'.vmem (s.place i) =
      if ((s.blinkArray i).phase + ticks q) % (s.blinkArray i).period <
          (s.blinkArray i).onLength.toNat
        then (s.blinkArray i).onChar else (s.blinkArray i).offChar

theorem FitsAll.of_prefix (h : FitsAll vmem cs) (hp : p <+: cs) : FitsAll vmem p :=
  fun q hq => h q (hq.trans hp)

theorem FitsAll.step (h : FitsAll vmem (cs ++ [c])) (hs : after vmem cs = some s)
    (hinv : Inv s l) : ∃ s' r l', Step s l c s' r l' ∧ after vmem (cs ++ [c]) = some s' ∧
      Inv s' l' ∧ Fits s' l' := by
  obtain ⟨s', r, l', hexec, hstep⟩ := exec_step hinv c
  have hs' : after vmem (cs ++ [c]) = some s' := by
    rw [after_concat, hs, Option.bind_some, hexec]
    rfl
  have hfits := h _ List.prefix_rfl s' l' hs' (hstep.lists hinv)
  refine ⟨s', r, l', hstep, hs', ⟨hstep.lists hinv, hstep.slots hinv, fun j hj hzero => ?_⟩, hfits⟩
  have hpos := (hfits.location j hj).1
  rw [hzero] at hpos
  exact absurd hpos (by decide)

theorem after_inv_of_fits (h : FitsAll vmem cs) : ∃ s l, after vmem cs = some s ∧ Inv s l := by
  induction cs using List.reverseRecOn with
  | nil => exact ⟨init vmem, [], after_nil vmem, init_inv vmem⟩
  | append_singleton cs c ih =>
    obtain ⟨s, l, hs, hinv⟩ := ih (h.of_prefix (List.prefix_append cs [c]))
    obtain ⟨s', r, l', hstep, hs', hinv', hfits⟩ := h.step hs hinv
    exact ⟨s', l', hs', hinv'⟩

theorem after_shows (h : FitsAll vmem cs) (hsyncs : SyncsShown vmem cs) :
    ∃ s l, after vmem cs = some s ∧ Inv s l ∧ Shows s l := by
  induction cs using List.reverseRecOn with
  | nil => exact ⟨init vmem, [], after_nil vmem, init_inv vmem, by simp, by simp⟩
  | append_singleton cs c ih =>
    obtain ⟨hbefore, hc⟩ := eachNext_concat.mp hsyncs
    have hpre := List.prefix_append cs [c]
    obtain ⟨s, l, hs, hinv, hshows⟩ := ih (h.of_prefix hpre) hbefore
    obtain ⟨s', r, l', hstep, hs', hinv', hfits'⟩ := h.step hs hinv
    have hfits := h cs hpre s l hs hinv.lists
    exact ⟨s', l', hs', hinv', hstep.shows hinv hshows hfits hfits' (hc s hs)⟩

/-- The phase of a structure counts the ticks while it is not disturbed. -/
theorem later_run (h : FitsAll vmem (p ++ q)) (hsyncs : SyncsShown vmem (p ++ q))
    (hs : after vmem p = some s) (hl : s.Lists l) (hi : i ∈ l)
    (hfree : EachNext (fun q' c => ∀ u, after vmem (p ++ q') = some u → ¬ Disturbs u i c) q) :
    ∃ s' l', after vmem (p ++ q) = some s' ∧ Inv s' l' ∧ Shows s' l' ∧
      Later (s.blinkArray i) (ticks q) s' l' i := by
  induction q using List.reverseRecOn with
  | nil =>
    rw [List.append_nil] at h hsyncs ⊢
    obtain ⟨s₀, l₀, hs₀, hinv, hshows⟩ := after_shows h hsyncs
    obtain rfl := Option.some.inj (hs.symm.trans hs₀)
    obtain rfl := hl.unique hinv.lists
    exact ⟨s, l, hs, hinv, hshows, (hshows.counting i hi).later_zero hi⟩
  | append_singleton q c ih =>
    rw [← List.append_assoc] at h hsyncs ⊢
    obtain ⟨hbefore, hc⟩ := eachNext_concat.mp hsyncs
    obtain ⟨hfree, hcfree⟩ := eachNext_concat.mp hfree
    have hpre := List.prefix_append (p ++ q) [c]
    obtain ⟨s₁, l₁, hs₁, hinv, hshows, hlater⟩ := ih (h.of_prefix hpre) hbefore hfree
    obtain ⟨s', r, l', hstep, hs', hinv', hfits'⟩ := h.step hs₁ hinv
    have hfits := h _ hpre s₁ l₁ hs₁ hinv.lists
    have hticks : ticks (q ++ [c]) = ticks q + if c.isTick then 1 else 0 := by
      rw [ticks, List.countP_append, List.countP_singleton]
      rfl
    refine ⟨s', l', hs', hinv', hstep.shows hinv hshows hfits hfits' (hc s₁ hs₁), ?_⟩
    rw [hticks]
    exact hstep.later hinv (hshows.counting i hlater.mem) hlater (hcfree s₁ hs₁)

/-- A synchronisation that keeps the display is one that shows the right character. -/
theorem syncShown_of_displayed (h : FitsAll vmem (cs ++ [c])) (hs : after vmem cs = some s)
    (hdisplayed : ∃ s' l', after vmem (cs ++ [c]) = some s' ∧ s'.Lists l' ∧
      ∀ i ∈ l', s'.vmem (s'.place i) = (s'.blinkArray i).shownChar) : SyncShown s c := by
  rintro arg esi edi rfl hesi hedi
  obtain ⟨s₀, l, hs₀, hinv⟩ := after_inv_of_fits (h.of_prefix (List.prefix_append cs _))
  obtain rfl := Option.some.inj (hs.symm.trans hs₀)
  obtain ⟨s', l', hs', hl', hshown⟩ := hdisplayed
  rw [after_concat, hs, Option.bind_some, exec, mp1IoctlSync_eq hesi hedi] at hs'
  obtain rfl := Option.some.inj hs'
  have hmem : ∀ {ax : UInt16} {j : ℕ}, mp1FindHelper s ax = some (some j) → j ∈ l := by
    intro ax j hj
    rw [hinv.mp1FindHelper_eq] at hj
    exact List.mem_of_find?_eq_some (Option.some.inj hj)
  have hlists := (Step.synced hesi (hmem hesi) hedi (hmem hedi)).lists hinv
  obtain rfl := hl'.unique hlists
  have hchar := hshown edi (hmem hedi)
  have hplace : (syncedState s esi edi).place edi = s.place edi := by
    rw [State.place, (syncedState_unchanged s esi edi edi).2, State.place]
  have hoffChar : (syncedState s esi edi).vmem (s.place edi) = (s.blinkArray edi).offChar :=
    Function.update_self ..
  rw [hplace, syncedState_blinkArray, if_pos rfl, hoffChar] at hchar
  by_cases hoff : (s.blinkArray esi).status &&& 1 = 0
  · exact Or.inl hoff
  · exact Or.inr (hchar.trans (if_neg hoff)).symm

/-- The structures blink as they should in exactly the runs in which every successful
synchronisation copies from a structure that is off, or to one with two equal characters. -/
theorem blinks_iff (h : FitsAll vmem cs) : Blinks vmem cs ↔ SyncsShown vmem cs := by
  constructor
  · rintro ⟨hdisplayed, -⟩ p c hpre s hs
    exact syncShown_of_displayed (h.of_prefix hpre) hs (hdisplayed _ hpre)
  · intro hsyncs
    refine ⟨fun p hp => ?_, fun p q hpq s l i hs hl hi hfree => ?_⟩
    · obtain ⟨s, l, hs, hinv, hshows⟩ := after_shows (h.of_prefix hp) (hsyncs.of_prefix hp)
      exact ⟨s, l, hs, hinv.lists, hshows.shown⟩
    · obtain ⟨s', l', hs', hinv', hshows', hlater⟩ :=
        later_run (h.of_prefix hpq) (hsyncs.of_prefix hpq) hs hl hi hfree
      have hplace : s'.place i = s.place i :=
        (congrArg (fun b => 2 * b.location.toNat) hlater.settings :)
      have hon : (s'.blinkArray i).onLength = (s.blinkArray i).onLength :=
        (congrArg BlinkStruct.onLength hlater.settings :)
      have honChar : (s'.blinkArray i).onChar = (s.blinkArray i).onChar :=
        (congrArg BlinkStruct.onChar hlater.settings :)
      have hoffChar : (s'.blinkArray i).offChar = (s.blinkArray i).offChar :=
        (congrArg BlinkStruct.offChar hlater.settings :)
      refine ⟨s', hs', ?_⟩
      rw [← hplace, hshows'.shown i hlater.mem, (hshows'.counting i hlater.mem).shownChar_eq,
        hlater.phase, hon, honChar, hoffChar]

/-! ## One structure on the list -/

/-- The location is 5, and the lengths are 2 and 3. -/
def exampleStruct : BlinkStruct := ⟨5, 67, 68, 2, 3, 0, 0, none⟩

/-- It is the only one on the list, with a countdown and a status. -/
def OnlyExample (countdown status : UInt16) (s : State) : Prop :=
  s.mp1ListHead = some 0 ∧
    s.blinkArray 0 = { exampleStruct with countdown := countdown, status := status }

theorem OnlyExample.lists {m n : UInt16} (h : OnlyExample m n s) : s.Lists [0] := by
  rw [State.Lists, h.1, Linked.cons_iff, h.2]
  exact ⟨rfl, Linked.nil_iff.mpr rfl⟩

theorem OnlyExample.fits {m n : UInt16} (h : OnlyExample m n s) (hl : s.Lists l) : Fits s l := by
  obtain rfl := hl.unique h.lists
  have hlocation : 1 ≤ exampleStruct.location.toNat ∧ exampleStruct.location.toNat ≤ 1999 := by
    decide
  have hon : 1 ≤ exampleStruct.onLength.toNat ∧ exampleStruct.onLength.toNat ≤ 32767 := by decide
  have hoff : 1 ≤ exampleStruct.offLength.toNat ∧ exampleStruct.offLength.toNat ≤ 32767 := by
    decide
  refine ⟨by simp, ?_, ?_, ?_⟩ <;> intro i hi <;> rw [List.mem_singleton.mp hi, h.2]
  · exact hlocation
  · exact hon
  · exact hoff

theorem fitsAll_example (m n m' n' : UInt16)
    (h : ∃ s, after vmem [.add exampleStruct] = some s ∧ OnlyExample m n s)
    (h' : ∃ s, after vmem [.add exampleStruct, c] = some s ∧ OnlyExample m' n' s) :
    FitsAll vmem [.add exampleStruct, c] := by
  intro p hp s l hs hl
  have hcases : p = [] ∨ p = [.add exampleStruct] ∨ p = [.add exampleStruct, c] := by
    rcases List.prefix_cons_iff.mp hp with rfl | ⟨q, rfl, hq⟩
    · exact Or.inl rfl
    rcases List.prefix_cons_iff.mp hq with rfl | ⟨r, rfl, hr⟩
    · exact Or.inr (Or.inl rfl)
    · rw [List.prefix_nil.mp hr]
      exact Or.inr (Or.inr rfl)
  rcases hcases with rfl | rfl | rfl
  · obtain rfl := Option.some.inj (hs.symm.trans (after_nil vmem))
    obtain rfl := Linked.none_iff.mp hl
    exact ⟨by simp, by simp, by simp, by simp⟩
  · obtain ⟨u, hu, hexample⟩ := h
    obtain rfl := Option.some.inj (hs.symm.trans hu)
    exact hexample.fits hl
  · obtain ⟨u, hu, hexample⟩ := h'
    obtain rfl := Option.some.inj (hs.symm.trans hu)
    exact hexample.fits hl

/-- The structure is added, and a tick follows. -/
theorem tick_blinks : Blinks (fun _ => 0) [.add exampleStruct, .tick] := by
  have hfits : FitsAll (fun _ => 0) [.add exampleStruct, .tick] :=
    fitsAll_example 2 1 1 1 ⟨_, rfl, rfl, rfl⟩ ⟨_, rfl, rfl, rfl⟩
  refine (blinks_iff hfits).mpr fun p c hpre s hs arg esi edi hc => ?_
  have hmem : c ∈ [Call.add exampleStruct, .tick] := hpre.subset (by simp)
  rw [hc] at hmem
  simp at hmem

/-- The structure is on and is synchronised with itself, and `off_char` is shown. -/
theorem sync_shows_off : FitsAll (fun _ => 0) [.add exampleStruct, .sync 0x50005] ∧
    ¬ Blinks (fun _ => 0) [.add exampleStruct, .sync 0x50005] := by
  refine ⟨fitsAll_example 2 1 2 1 ⟨_, rfl, rfl, rfl⟩ ⟨_, rfl, rfl, rfl⟩, ?_⟩
  rintro ⟨hdisplayed, -⟩
  obtain ⟨s, l, hs, hl, hshown⟩ := hdisplayed _ List.prefix_rfl
  obtain ⟨u, hu, hexample, hchar⟩ : ∃ u, after (fun _ => 0) [.add exampleStruct, .sync 0x50005] =
      some u ∧ OnlyExample 2 1 u ∧ u.vmem 10 = 68 := ⟨_, rfl, ⟨rfl, rfl⟩, rfl⟩
  obtain rfl := Option.some.inj (hs.symm.trans hu)
  obtain rfl := hl.unique hexample.lists
  have hcontra := hshown 0 List.mem_cons_self
  have hplace : s.place 0 = 10 := by
    rw [State.place, hexample.2]
    rfl
  rw [hplace, hexample.2, hchar] at hcontra
  exact absurd hcontra (by decide)

end KudOS.Blink
