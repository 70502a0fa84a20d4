import KudOS.BlinkDisplay

/-!
# Pictures of blinking characters

Structures at ascending locations are added one after the other. The allocator places them
in this order, so all of them fit, and from then on each shows its two characters in turn.
The rest of the screen stays as it was.
-/

namespace KudOS.Blink

variable {s s' : State} {b : BlinkStruct} {bs : List BlinkStruct} {vmem : ℕ → UInt8} {n i : ℕ}

/-- Ascending locations on the screen but for the first one, and lengths that are positive
as signed words. -/
structure Drawable (bs : List BlinkStruct) : Prop where
  ascending : bs.Pairwise fun b b' => b.location.toNat < b'.location.toNat
  location : ∀ b ∈ bs, 1 ≤ b.location.toNat ∧ b.location.toNat ≤ 1999
  onLength : ∀ b ∈ bs, 1 ≤ b.onLength.toNat ∧ b.onLength.toNat ≤ 32767
  offLength : ∀ b ∈ bs, 1 ≤ b.offLength.toNat ∧ b.offLength.toNat ≤ 32767

/-- A structure as `mp1_ioctl_add` starts it. -/
def BlinkStruct.fresh (b : BlinkStruct) : BlinkStruct :=
  { b with status := 1, countdown := b.onLength, next := none }

theorem BlinkStruct.fresh_phase (b : BlinkStruct) : b.fresh.phase = 0 := by
  have hbit : ¬ (1 : UInt16) &&& 1 = 0 := by decide
  have hphase : b.fresh.phase = b.onLength.toNat - b.onLength.toNat := phase_of_on hbit
  rw [hphase, Nat.sub_self]

/-- The structures of `bs`, each in the slot of its position, `n` ticks after they were
added. -/
structure Drawn (vmem : ℕ → UInt8) (bs : List BlinkStruct) (n : ℕ) (s : State) : Prop where
  inv : Inv s (List.range bs.length).reverse
  shows : Shows s (List.range bs.length).reverse
  later : ∀ i (h : i < bs.length), Later bs[i].fresh n s (List.range bs.length).reverse i
  free : ∀ i, bs.length ≤ i → s.blinkArray i = .zero
  frame : ∀ k, (∀ b ∈ bs, 2 * b.location.toNat ≠ k) → s.vmem k = vmem k

namespace Drawable

theorem of_prefix {b : BlinkStruct} (h : Drawable (bs ++ [b])) : Drawable bs :=
  ⟨(List.pairwise_append.mp h.ascending).1,
    fun b' hb' => h.location b' (List.mem_append_left _ hb'),
    fun b' hb' => h.onLength b' (List.mem_append_left _ hb'),
    fun b' hb' => h.offLength b' (List.mem_append_left _ hb')⟩

theorem location_lt (h : Drawable bs) {i j : ℕ} (hij : i < j) (hj : j < bs.length) :
    bs[i].location.toNat < bs[j].location.toNat :=
  List.pairwise_iff_getElem.mp h.ascending i j (hij.trans hj) hj hij

/-- There is a slot for each of them: by induction, the locations grow at least by one. -/
theorem length_le (h : Drawable bs) : bs.length ≤ 1999 := by
  have hgrow : ∀ i (hi : i < bs.length), i + 1 ≤ bs[i].location.toNat := by
    intro i
    induction i with
    | zero => exact fun hi => (h.location _ (List.getElem_mem hi)).1
    | succ i ih =>
      intro hi
      have hbefore := ih (by omega)
      exact Nat.succ_le_of_lt (Nat.lt_of_le_of_lt hbefore (h.location_lt (Nat.lt_succ_self i) hi))
  rcases Nat.eq_zero_or_pos bs.length with hzero | hpos
  · omega
  · have hlast := hgrow (bs.length - 1) (by omega)
    have hle := (h.location _ (List.getElem_mem (by omega : bs.length - 1 < bs.length))).2
    omega

theorem fits (h : Drawable bs)
    (hset : ∀ i (hi : i < bs.length), (s.blinkArray i).settings = bs[i].settings) :
    Fits s (List.range bs.length).reverse := by
  have hmem : ∀ {i}, i ∈ (List.range bs.length).reverse → i < bs.length :=
    fun hi => List.mem_range.mp (List.mem_reverse.mp hi)
  have hlocation : ∀ i (hi : i < bs.length), (s.blinkArray i).location = bs[i].location :=
    fun i hi => (congrArg BlinkStruct.location (hset i hi) :)
  refine ⟨fun i hi j hj heq => ?_, fun i hi => ?_, fun i hi => ?_, fun i hi => ?_⟩
  · rw [hlocation i (hmem hi), hlocation j (hmem hj)] at heq
    have hnat := congrArg UInt16.toNat heq
    rcases Nat.lt_trichotomy i j with hij | rfl | hij
    · have hlt := h.location_lt hij (hmem hj)
      omega
    · rfl
    · have hlt := h.location_lt hij (hmem hi)
      omega
  · rw [hlocation i (hmem hi)]
    exact h.location _ (List.getElem_mem _)
  · have hlt := hmem hi
    have hon : (s.blinkArray i).onLength = bs[i].onLength :=
      (congrArg BlinkStruct.onLength (hset i hlt) :)
    rw [hon]
    exact h.onLength _ (List.getElem_mem _)
  · have hlt := hmem hi
    have hoff : (s.blinkArray i).offLength = bs[i].offLength :=
      (congrArg BlinkStruct.offLength (hset i hlt) :)
    rw [hoff]
    exact h.offLength _ (List.getElem_mem _)

end Drawable

namespace Drawn

theorem settings (h : Drawn vmem bs n s) (i : ℕ) (hi : i < bs.length) :
    (s.blinkArray i).settings = bs[i].settings := (h.later i hi).settings

theorem mp1Malloc_eq (h : Drawn vmem bs n s) (hlt : bs.length < NUM_SLOTS) :
    mp1Malloc s = some bs.length := by
  refine mallocLoop_eq (Nat.zero_le _) (by omega) ?_ fun j _ hj => ?_
  · rw [h.free bs.length le_rfl]
    rfl
  · exact h.inv.used j (List.mem_reverse.mpr (List.mem_range.mpr hj))

theorem range_succ_reverse (n : ℕ) :
    (List.range (n + 1)).reverse = n :: (List.range n).reverse := by
  rw [List.range_succ, List.reverse_append]
  rfl

theorem add (h : Drawn vmem bs 0 s) (hd : Drawable (bs ++ [b])) :
    ∃ s', exec s (.add b) = some (s', 0) ∧ Drawn vmem (bs ++ [b]) 0 s' := by
  have hlen : (bs ++ [b]).length = bs.length + 1 := by
    rw [List.length_append, List.length_singleton]
  have hslots := hd.length_le
  obtain ⟨hpos, hle⟩ := hd.location b (List.mem_append_right _ List.mem_cons_self)
  have hfree := h.mp1Malloc_eq (by rw [NUM_SLOTS]; omega)
  have hsmall : b.location < 80 * 25 := UInt16.lt_iff_toNat_lt.mpr (Nat.lt_succ_of_le hle)
  have hadd := mp1IoctlAdd_eq (UInt16.not_le.mpr hsmall) hfree
  set s' : State := ⟨Function.update s.blinkArray bs.length (newStruct s b), some bs.length,
    Function.update s.vmem (2 * b.location.toNat) b.onChar⟩ with hs'
  have hnew : s'.blinkArray bs.length = newStruct s b := Function.update_self ..
  have hold : ∀ j, j ≠ bs.length → s'.blinkArray j = s.blinkArray j :=
    fun j hj => Function.update_of_ne hj ..
  have hstep : Step s (List.range bs.length).reverse (.add b) s' 0
      (bs.length :: (List.range bs.length).reverse) := .added hfree hsmall rfl hnew hold rfl
  have hallowed : Allowed s (.add b) := by
    rintro arg harg hzero
    cases harg
    rw [hzero] at hpos
    exact absurd hpos (by decide)
  have hlater : ∀ i (hi : i < (bs ++ [b]).length), Later ((bs ++ [b])[i]).fresh 0 s'
      (bs.length :: (List.range bs.length).reverse) i := by
    intro i hi
    rcases Nat.lt_or_eq_of_le (Nat.le_of_lt_succ (hlen ▸ hi)) with hlt | rfl
    · rw [List.getElem_append_left hlt]
      have hold := h.later i hlt
      exact hstep.later h.inv (h.shows.counting i hold.mem) hold not_false
    · have hlast : (bs ++ [b])[bs.length] = b := by simp
      rw [hlast]
      refine ⟨List.mem_cons_self, by rw [hnew]; rfl, ?_⟩
      have hphase : (newStruct s b).phase = b.fresh.phase := rfl
      rw [hnew, hphase, b.fresh_phase, Nat.zero_mod]
  have hinv := hstep.inv h.inv hallowed
  refine ⟨s', congrArg some hadd, ?_⟩
  rw [← range_succ_reverse, ← hlen] at hlater hinv hstep
  have hfits := hd.fits fun i hi => (hlater i hi).settings
  refine ⟨hinv, hstep.shows h.inv h.shows (hd.of_prefix.fits h.settings) hfits nofun, hlater,
    fun i hi => ?_, fun k hk => ?_⟩
  · rw [hold i (by omega)]
    exact h.free i (by omega)
  · have hne : k ≠ 2 * b.location.toNat :=
      fun heq => hk b (List.mem_append_right _ List.mem_cons_self) heq.symm
    rw [← h.frame k fun b' hb' => hk b' (List.mem_append_left _ hb')]
    exact Function.update_of_ne hne ..

theorem tick (h : Drawn vmem bs n s) (hd : Drawable bs) :
    ∃ s', exec s .tick = some (s', 0) ∧ Drawn vmem bs (n + 1) s' := by
  obtain ⟨s', r, l', hexec, hstep⟩ := exec_step h.inv .tick
  have hinv := hstep.inv h.inv nofun
  have hfits := hd.fits h.settings
  cases hstep with
  | failed hc => exact absurd rfl hc
  | ticked hres =>
    have hstep : Step s (List.range bs.length).reverse .tick s' 0 _ := .ticked hres
    have hlater : ∀ i (hi : i < bs.length),
        Later bs[i].fresh (n + 1) s' (List.range bs.length).reverse i := fun i hi =>
      hstep.later h.inv (h.shows.counting i (h.later i hi).mem) (h.later i hi) not_false
    have hfits' := hd.fits fun i hi => (hlater i hi).settings
    refine ⟨s', hexec, hinv, hstep.shows h.inv h.shows hfits hfits' nofun, hlater, fun i hi => ?_,
      fun k hk => ?_⟩
    · rw [hres.unlisted i]
      · exact h.free i hi
      · rw [List.mem_reverse, List.mem_range]
        omega
    · rw [hres.frame k, h.frame k hk]
      intro j hj
      have hj := List.mem_range.mp (List.mem_reverse.mp hj)
      have hlocation : (s.blinkArray j).location = bs[j].location :=
        (congrArg BlinkStruct.location (h.settings j hj) :)
      rw [State.place, hlocation]
      exact hk _ (List.getElem_mem hj)

end Drawn

end KudOS.Blink
