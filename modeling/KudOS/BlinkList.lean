import KudOS.BlinkingCharacters
import KudOS.LinkedLists
import KudOS.ListPositions

/-!
# The list of blinking characters

`mp1_malloc` takes a structure for free if its location is 0. As long as no structure with
this location is on the list, every call keeps the list of `blink.S` and does to it what it
is meant to do. The location is one of the fields that the caller of `mp1_ioctl_add` sets.
-/

namespace KudOS.Blink

variable {s s' : State} {a a' : ℕ → BlinkStruct} {l l' x y : List ℕ} {p : Option ℕ} {i n : ℕ}
  {r : ℤ} {c : Call} {vmem : ℕ → UInt8} {cs : List Call}

/-- The structures from `mp1_list_head` on, up to a null pointer. -/
def State.Lists (s : State) (l : List ℕ) : Prop :=
  Linked (fun i => (s.blinkArray i).next) s.mp1ListHead l

/-- A structure without its place in the list. -/
def BlinkStruct.unlinked (b : BlinkStruct) : BlinkStruct := { b with next := none }

/-! ## The allocator -/

theorem mallocLoop_some {k : ℕ} (h : mallocLoop a n i = some k) :
    k < i + n ∧ (a k).location = 0 ∧ ∀ j, i ≤ j → j < k → (a j).location ≠ 0 := by
  induction n generalizing i with
  | zero => simp [mallocLoop] at h
  | succ n ih =>
    rw [mallocLoop] at h
    by_cases hfree : (a i).location = 0
    · rw [if_pos hfree] at h
      obtain rfl := Option.some.inj h
      exact ⟨by omega, hfree, fun j hj hj' => by omega⟩
    · rw [if_neg hfree] at h
      obtain ⟨hlt, hk, hbefore⟩ := ih h
      refine ⟨by omega, hk, fun j hj hj' => ?_⟩
      rcases Nat.eq_or_lt_of_le hj with rfl | hlt'
      · exact hfree
      · exact hbefore j hlt' hj'

theorem mallocLoop_eq {k : ℕ} (hi : i ≤ k) (hlt : k < i + n) (hk : (a k).location = 0)
    (hbefore : ∀ j, i ≤ j → j < k → (a j).location ≠ 0) : mallocLoop a n i = some k := by
  induction n generalizing i with
  | zero => omega
  | succ n ih =>
    rw [mallocLoop]
    rcases Nat.eq_or_lt_of_le hi with rfl | hlt'
    · rw [if_pos hk]
    · rw [if_neg (hbefore i le_rfl hlt')]
      exact ih hlt' (by omega) fun j hj hj' => hbefore j (by omega) hj'

theorem mp1Malloc_some (h : mp1Malloc s = some i) :
    i < NUM_SLOTS ∧ (s.blinkArray i).location = 0 ∧
      ∀ j < i, (s.blinkArray j).location ≠ 0 := by
  obtain ⟨hlt, hi, hbefore⟩ := mallocLoop_some h
  exact ⟨by omega, hi, fun j hj => hbefore j (Nat.zero_le j) hj⟩

/-! ## The loops over the list -/

theorem findLoop_eq {ax : UInt16} (h : Linked (fun i => (a i).next) p l) (hn : l.length < n) :
    findLoop a ax n p = some (l.find? fun i => (a i).location = ax) := by
  induction l generalizing n p with
  | nil =>
    obtain rfl := Linked.nil_iff.mp h
    obtain ⟨m, rfl⟩ := Nat.exists_eq_succ_of_ne_zero (Nat.ne_of_gt hn)
    rfl
  | cons i l ih =>
    obtain ⟨rfl, hrest⟩ := Linked.cons_iff.mp h
    rw [List.length_cons] at hn
    obtain ⟨m, rfl⟩ := Nat.exists_eq_succ_of_ne_zero (n := n) (by omega)
    rw [findLoop, List.find?_cons]
    by_cases hi : (a i).location = ax
    · rw [if_pos hi, decide_eq_true hi]
    · rw [if_neg hi, decide_eq_false hi, ih hrest (by omega)]

/-- The place in front of the structure `i`: the last one that was passed, or the start. -/
theorem findPrevLoop_eq {edx : Place}
    (h : Linked (fun i => (s.blinkArray i).next) (s.pointer edx) (x ++ i :: y)) (hx : i ∉ x)
    (hn : x.length < n) :
    findPrevLoop s i n edx = some ((x.getLast?.map Place.next).getD edx) := by
  induction x generalizing n edx with
  | nil =>
    obtain ⟨m, rfl⟩ := Nat.exists_eq_succ_of_ne_zero (Nat.ne_of_gt hn)
    rw [findPrevLoop, (Linked.cons_iff.mp h).1, if_pos rfl]
    rfl
  | cons c x ih =>
    obtain ⟨hc, hrest⟩ := Linked.cons_iff.mp h
    rw [List.length_cons] at hn
    obtain ⟨m, rfl⟩ := Nat.exists_eq_succ_of_ne_zero (n := n) (by omega)
    have hne : ¬ some c = some i := fun heq => hx (by simp [Option.some.inj heq])
    have hpointer : Linked (fun i => (s.blinkArray i).next) (s.pointer (.next c)) (x ++ i :: y) :=
      hrest
    rw [findPrevLoop, hc, if_neg hne]
    dsimp only
    rw [ih hpointer (fun hi => hx (List.mem_cons_of_mem c hi)) (by omega), List.getLast?_cons]
    cases x.getLast? <;> rfl

/-- What the tasklet makes of a structure. -/
def tickStruct (b : BlinkStruct) : BlinkStruct :=
  if 0 < (b.countdown - 1).toInt16 then { b with countdown := b.countdown - 1 }
  else { b with countdown := if b.status &&& 1 = 0 then b.onLength else b.offLength,
                status := b.status ^^^ 1 }

/-- The character at its location afterwards, where `c` stands before. -/
def tickChar (b : BlinkStruct) (c : UInt8) : UInt8 :=
  if 0 < (b.countdown - 1).toInt16 then c
  else if b.status &&& 1 = 0 then b.onChar else b.offChar

/-- The places of the video memory where a listed structure is shown. -/
def State.place (s : State) (i : ℕ) : ℕ := 2 * (s.blinkArray i).location.toNat

theorem tickStruct_unchanged (b : BlinkStruct) : (tickStruct b).next = b.next ∧
    (tickStruct b).location = b.location ∧ (tickStruct b).onChar = b.onChar ∧
    (tickStruct b).offChar = b.offChar ∧ (tickStruct b).onLength = b.onLength ∧
    (tickStruct b).offLength = b.offLength := by
  rw [tickStruct]
  split <;> exact ⟨rfl, rfl, rfl, rfl, rfl, rfl⟩

theorem taskletBody_eq (s : State) (i : ℕ) :
    taskletBody s i =
      { s with blinkArray := Function.update s.blinkArray i (tickStruct (s.blinkArray i))
               vmem := Function.update s.vmem (s.place i)
                 (tickChar (s.blinkArray i) (s.vmem (s.place i))) } := by
  rw [taskletBody, tickStruct, tickChar]
  dsimp only
  by_cases hpos : 0 < ((s.blinkArray i).countdown - 1).toInt16
  · rw [if_pos hpos, if_pos hpos, if_pos hpos, Function.update_eq_self]
    rfl
  · rw [if_neg hpos, if_neg hpos, if_neg hpos]
    by_cases hoff : (s.blinkArray i).status &&& 1 = 0
    · rw [if_pos hoff, if_pos hoff, if_pos hoff]
      rfl
    · rw [if_neg hoff, if_neg hoff, if_neg hoff]
      rfl

theorem taskletBody_self (s : State) (i : ℕ) :
    (taskletBody s i).blinkArray i = tickStruct (s.blinkArray i) := by
  rw [taskletBody_eq]
  exact Function.update_self ..

theorem taskletBody_of_ne (s : State) {i j : ℕ} (h : j ≠ i) :
    (taskletBody s i).blinkArray j = s.blinkArray j := by
  rw [taskletBody_eq]
  exact Function.update_of_ne h ..

theorem taskletBody_place (s : State) (i j : ℕ) : (taskletBody s i).place j = s.place j := by
  by_cases hj : j = i
  · subst hj
    rw [State.place, State.place, taskletBody_self, (tickStruct_unchanged _).2.1]
  · rw [State.place, State.place, taskletBody_of_ne s hj]

structure TickResult (s : State) (l : List ℕ) (s' : State) : Prop where
  head : s'.mp1ListHead = s.mp1ListHead
  listed : ∀ i ∈ l, s'.blinkArray i = tickStruct (s.blinkArray i)
  unlisted : ∀ i, i ∉ l → s'.blinkArray i = s.blinkArray i
  shown : ∀ i ∈ l, (∀ j ∈ l, s.place j = s.place i → j = i) →
    s'.vmem (s.place i) = tickChar (s.blinkArray i) (s.vmem (s.place i))
  frame : ∀ k, (∀ j ∈ l, s.place j ≠ k) → s'.vmem k = s.vmem k

theorem TickResult.cons (hi : i ∉ l) (h : TickResult (taskletBody s i) l s') :
    TickResult s (i :: l) s' where
  head := by rw [h.head, taskletBody_eq]
  listed := by
    intro j hj
    rcases List.mem_cons.mp hj with rfl | hj
    · rw [h.unlisted j hi, taskletBody_self]
    · have hji : j ≠ i := fun hji => hi (hji ▸ hj)
      rw [h.listed j hj, taskletBody_of_ne s hji]
  unlisted := by
    intro j hj
    rw [List.mem_cons, not_or] at hj
    obtain ⟨hji, hjl⟩ := hj
    rw [h.unlisted j hjl, taskletBody_of_ne s hji]
  shown := by
    intro j hj hunique
    rcases List.mem_cons.mp hj with rfl | hj
    · have hframe := h.frame (s.place j) fun k hk hkj => hi <| by
        rw [taskletBody_place] at hkj
        rwa [← hunique k (List.mem_cons_of_mem j hk) hkj]
      rw [hframe, taskletBody_eq]
      exact Function.update_self ..
    · have hji : j ≠ i := fun hji => hi (hji ▸ hj)
      have hne : s.place j ≠ s.place i :=
        fun hplaces => hji (hunique i List.mem_cons_self hplaces.symm).symm
      have hshown := h.shown j hj fun k hk hkj => by
        rw [taskletBody_place, taskletBody_place] at hkj
        exact hunique k (List.mem_cons_of_mem i hk) hkj
      rw [taskletBody_place, taskletBody_of_ne s hji] at hshown
      rw [hshown, taskletBody_eq]
      exact congrArg _ (Function.update_of_ne hne ..)
  frame := by
    intro k hk
    rw [h.frame k fun j hj => by rw [taskletBody_place]; exact hk j (List.mem_cons_of_mem i hj),
      taskletBody_eq]
    exact Function.update_of_ne (fun hki => hk i List.mem_cons_self hki.symm) ..

theorem taskletLoop_eq (h : Linked (fun i => (s.blinkArray i).next) p l) (hn : l.length < n) :
    ∃ s', taskletLoop n s p = some s' ∧ TickResult s l s' := by
  induction l generalizing s n p with
  | nil =>
    obtain rfl := Linked.nil_iff.mp h
    obtain ⟨m, rfl⟩ := Nat.exists_eq_succ_of_ne_zero (Nat.ne_of_gt hn)
    exact ⟨s, rfl, rfl, by simp, fun _ _ => rfl, by simp, fun _ _ => rfl⟩
  | cons i l ih =>
    obtain ⟨rfl, hrest⟩ := Linked.cons_iff.mp h
    have hi : i ∉ l := (List.nodup_cons.mp h.nodup).1
    rw [List.length_cons] at hn
    obtain ⟨m, rfl⟩ := Nat.exists_eq_succ_of_ne_zero (n := n) (by omega)
    have hnext : ((taskletBody s i).blinkArray i).next = (s.blinkArray i).next := by
      rw [taskletBody_self]
      exact (tickStruct_unchanged _).1
    have hlinked : Linked (fun j => ((taskletBody s i).blinkArray j).next)
        (s.blinkArray i).next l := by
      refine hrest.congr fun j hj => ?_
      have hji : j ≠ i := fun hji => hi (hji ▸ hj)
      rw [taskletBody_of_ne s hji]
    obtain ⟨s', hloop, hres⟩ := ih hlinked (n := m) (by omega)
    refine ⟨s', ?_, hres.cons hi⟩
    rw [taskletLoop, hnext]
    exact hloop

/-! ## What a call can do -/

/-- The list `l` is made of structures of the array, and the allocator sees that they are in
use. -/
structure Inv (s : State) (l : List ℕ) : Prop where
  lists : s.Lists l
  slots : ∀ i ∈ l, i < NUM_SLOTS
  used : ∀ i ∈ l, (s.blinkArray i).location ≠ 0

/-- The structure that a successful `mp1_ioctl_add` puts on the list. -/
def newStruct (s : State) (arg : BlinkStruct) : BlinkStruct :=
  { arg with status := 1, countdown := arg.onLength, next := s.mp1ListHead }

def syncedState (s : State) (esi edi : ℕ) : State :=
  (s.setSlot edi (syncCopy (s.blinkArray esi) (s.blinkArray edi))).mp1Poke
    (s.blinkArray edi).offChar (s.place edi)

inductive Step (s : State) (l : List ℕ) : Call → State → ℤ → List ℕ → Prop where
  | failed {c : Call} (hc : c ≠ .tick) : Step s l c s (-1) l
  | added {arg : BlinkStruct} {i : ℕ} {s' : State} (hfree : mp1Malloc s = some i)
      (hlocation : arg.location < 80 * 25) (hhead : s'.mp1ListHead = some i)
      (hnew : s'.blinkArray i = newStruct s arg)
      (hold : ∀ j, j ≠ i → s'.blinkArray j = s.blinkArray j)
      (hvmem : s'.vmem = Function.update s.vmem (2 * arg.location.toNat) arg.onChar) :
      Step s l (.add arg) s' 0 (i :: l)
  | removed {arg : UInt32} {x y : List ℕ} {i : ℕ} {s' : State} (hl : l = x ++ i :: y)
      (hfind : mp1FindHelper s arg.toUInt16 = some (some i))
      (hbefore : ∀ j ∈ x, (s.blinkArray j).location ≠ arg.toUInt16)
      (hi : (s.blinkArray i).location = arg.toUInt16) (hlists : s'.Lists (x ++ y))
      (hothers : ∀ j ∈ x ++ y, (s'.blinkArray j).unlinked = (s.blinkArray j).unlinked)
      (hvmem : s'.vmem = s.vmem) : Step s l (.remove arg) s' 0 (x ++ y)
  | found {location : UInt16} : Step s l (.find location) s 0 l
  | synced {arg : UInt32} {esi edi : ℕ}
      (hesi : mp1FindHelper s (arg >>> 16).toUInt16 = some (some esi)) (hesil : esi ∈ l)
      (hedi : mp1FindHelper s (arg &&& 0xFFFF).toUInt16 = some (some edi)) (hedil : edi ∈ l) :
      Step s l (.sync arg) (syncedState s esi edi) 0 l
  | ticked {s' : State} (h : TickResult s l s') : Step s l .tick s' 0 l

theorem Inv.mp1FindHelper_eq (h : Inv s l) (ax : UInt16) :
    mp1FindHelper s ax = some (l.find? fun i => (s.blinkArray i).location = ax) :=
  findLoop_eq h.lists (Nat.lt_succ_of_le (Linked.length_le h.lists h.slots))

/-- `cmovl` behind `testb` never moves: there is no sign and no overflow. -/
theorem cmovl_testb (status : UInt8) (src dst : UInt8) :
    cmovl (testb 1 status) src dst = dst := by
  have hle : 1 &&& status ≤ 1 := by
    rw [UInt8.le_iff_toNat_le, UInt8.toNat_and]
    exact Nat.and_le_left
  have hsign : ¬ 128 ≤ 1 &&& status := fun h => absurd (UInt8.le_trans h hle) (by decide)
  rw [cmovl, testb, decide_eq_false hsign]
  rfl

theorem mp1IoctlAdd_eq {arg : BlinkStruct} (hlocation : ¬ 80 * 25 ≤ arg.location)
    (hfree : mp1Malloc s = some i) :
    mp1IoctlAdd s arg =
      (⟨Function.update s.blinkArray i (newStruct s arg), some i,
        Function.update s.vmem (2 * arg.location.toNat) arg.onChar⟩, 0) := by
  rw [mp1IoctlAdd, if_neg hlocation, hfree]
  rfl

theorem add_step (s : State) (l : List ℕ) (arg : BlinkStruct) :
    ∃ s' r l', mp1IoctlAdd s arg = (s', r) ∧ Step s l (.add arg) s' r l' := by
  by_cases hlocation : 80 * 25 ≤ arg.location
  · exact ⟨s, -1, l, if_pos hlocation, .failed nofun⟩
  cases hfree : mp1Malloc s with
  | none =>
    refine ⟨s, -1, l, ?_, .failed nofun⟩
    rw [mp1IoctlAdd, if_neg hlocation, hfree]
  | some i =>
    refine ⟨_, 0, i :: l, mp1IoctlAdd_eq hlocation hfree,
      .added hfree (UInt16.not_le.mp hlocation) rfl ?_ ?_ rfl⟩
    · exact Function.update_self ..
    · exact fun j hj => Function.update_of_ne hj ..

theorem remove_head {arg : UInt32} (h : s.Lists (i :: y))
    (hfind : mp1FindHelper s arg.toUInt16 = some (some i))
    (hi : (s.blinkArray i).location = arg.toUInt16) :
    Step s (i :: y) (.remove arg)
      (mp1Free (s.setPointer .listHead (s.blinkArray i).next) i) 0 y := by
  set s' := mp1Free (s.setPointer .listHead (s.blinkArray i).next) i
  have hiy : i ∉ y := (List.nodup_cons.mp h.nodup).1
  have hother : ∀ j ∈ y, s'.blinkArray j = s.blinkArray j := by
    intro j hj
    have hji : j ≠ i := fun hji => hiy (hji ▸ hj)
    exact Function.update_of_ne hji ..
  refine .removed (x := []) rfl hfind (by simp) hi ?_ (fun j hj => congrArg _ (hother j hj)) rfl
  exact (Linked.cons_iff.mp h).2.congr fun j hj => congrArg _ (hother j hj)

theorem remove_behind {arg : UInt32} {b : ℕ} (h : s.Lists (x ++ b :: i :: y))
    (hfind : mp1FindHelper s arg.toUInt16 = some (some i))
    (hbefore : ∀ j ∈ x ++ [b], (s.blinkArray j).location ≠ arg.toUInt16)
    (hi : (s.blinkArray i).location = arg.toUInt16) :
    Step s (x ++ b :: i :: y) (.remove arg)
      (mp1Free (s.setPointer (.next b) (s.blinkArray i).next) i) 0 (x ++ b :: y) := by
  set s' := mp1Free (s.setPointer (.next b) (s.blinkArray i).next) i
  obtain ⟨-, hrest, hapart⟩ := List.nodup_append.mp h.nodup
  rw [List.nodup_cons, List.nodup_cons] at hrest
  obtain ⟨hb_rest, hi_rest, -⟩ := hrest
  have hbi : b ≠ i := fun hbi => hb_rest (by simp [hbi])
  have hb : s'.blinkArray b = { s.blinkArray b with next := (s.blinkArray i).next } := by
    rw [show s'.blinkArray b = _ from Function.update_of_ne hbi ..]
    exact Function.update_self ..
  have hother : ∀ j ∈ x ++ y, s'.blinkArray j = s.blinkArray j := by
    intro j hj
    obtain ⟨hji, hjb⟩ : j ≠ i ∧ j ≠ b := by
      rcases List.mem_append.mp hj with hj | hj
      · exact ⟨hapart j hj i (by simp), hapart j hj b (by simp)⟩
      · exact ⟨fun hji => hi_rest (hji ▸ hj), fun hjb => hb_rest (by simp [← hjb, hj])⟩
    rw [show s'.blinkArray j = _ from Function.update_of_ne hji ..]
    exact Function.update_of_ne hjb ..
  have hlist : x ++ [b] ++ y = x ++ b :: y := by simp
  rw [← hlist]
  refine .removed (x := x ++ [b]) (by simp) hfind hbefore hi ?_ ?_ rfl
  · rw [hlist]
    refine Linked.unlink h ?_ fun j hj => congrArg _ (hother j hj)
    rw [hb]
  · intro j hj
    by_cases hjb : j = b
    · rw [hjb, hb]
      rfl
    · refine congrArg _ (hother j ?_)
      simpa [hjb] using hj

theorem remove_step (h : Inv s l) (arg : UInt32) :
    ∃ s' r l', mp1IoctlRemove s arg = some (s', r) ∧ Step s l (.remove arg) s' r l' := by
  have hhelper := h.mp1FindHelper_eq arg.toUInt16
  rw [mp1IoctlRemove, hhelper, Option.bind_eq_bind, Option.bind_some]
  cases hfind : l.find? fun i => (s.blinkArray i).location = arg.toUInt16 with
  | none => exact ⟨s, -1, l, rfl, .failed nofun⟩
  | some i =>
    rw [hfind] at hhelper
    obtain ⟨hi, x, y, rfl, hbefore⟩ := List.find?_eq_some_iff_append.mp hfind
    have hix : i ∉ x := fun hmem =>
      (List.nodup_append.mp h.lists.nodup).2.2 i hmem i List.mem_cons_self rfl
    have hlen := Linked.length_le h.lists h.slots
    rw [List.length_append, List.length_cons] at hlen
    dsimp only
    have hhead : Linked (fun j => (s.blinkArray j).next) (s.pointer .listHead) (x ++ i :: y) :=
      h.lists
    rw [findPrevLoop_eq hhead hix (by omega), Option.bind_eq_bind, Option.bind_some]
    rcases List.eq_nil_or_concat' x with rfl | ⟨x, b, rfl⟩
    · exact ⟨_, 0, y, rfl, remove_head h.lists hhelper (by simpa using hi)⟩
    · rw [List.getLast?_concat]
      have hlist : x ++ [b] ++ i :: y = x ++ b :: i :: y := by simp
      rw [hlist] at h ⊢
      exact ⟨_, 0, x ++ b :: y, rfl,
        remove_behind h.lists hhelper (by simpa using hbefore) (by simpa using hi)⟩

theorem mp1IoctlSync_eq {arg : UInt32} {esi edi : ℕ}
    (hesi : mp1FindHelper s (arg >>> 16).toUInt16 = some (some esi))
    (hedi : mp1FindHelper s (arg &&& 0xFFFF).toUInt16 = some (some edi)) :
    mp1IoctlSync s arg = some (syncedState s esi edi, 0) := by
  rw [mp1IoctlSync, hesi, Option.bind_eq_bind, Option.bind_some]
  dsimp only
  rw [hedi, Option.bind_some]
  dsimp only
  rw [cmovl_testb]
  rfl

theorem sync_step (h : Inv s l) (arg : UInt32) :
    ∃ s' r, mp1IoctlSync s arg = some (s', r) ∧ Step s l (.sync arg) s' r l := by
  have hesi := h.mp1FindHelper_eq (arg >>> 16).toUInt16
  have hedi := h.mp1FindHelper_eq (arg &&& 0xFFFF).toUInt16
  cases hsource : l.find? fun i => (s.blinkArray i).location = (arg >>> 16).toUInt16 with
  | none =>
    refine ⟨s, -1, ?_, .failed nofun⟩
    rw [mp1IoctlSync, hesi, hsource]
    rfl
  | some esi =>
    rw [hsource] at hesi
    cases htarget : l.find? fun i => (s.blinkArray i).location = (arg &&& 0xFFFF).toUInt16 with
    | none =>
      refine ⟨s, -1, ?_, .failed nofun⟩
      rw [mp1IoctlSync, hesi, Option.bind_eq_bind, Option.bind_some]
      dsimp only
      rw [hedi, htarget]
      rfl
    | some edi =>
      rw [htarget] at hedi
      exact ⟨_, 0, mp1IoctlSync_eq hesi hedi, .synced hesi (List.mem_of_find?_eq_some hsource)
        hedi (List.mem_of_find?_eq_some htarget)⟩

/-- Every call returns, and does one of these. -/
theorem exec_step (h : Inv s l) (c : Call) :
    ∃ s' r l', exec s c = some (s', r) ∧ Step s l c s' r l' := by
  cases c with
  | add arg =>
    obtain ⟨s', r, l', hadd, hstep⟩ := add_step s l arg
    exact ⟨s', r, l', congrArg some hadd, hstep⟩
  | remove arg => exact remove_step h arg
  | find location =>
    have hfind := h.mp1FindHelper_eq location
    rw [exec, mp1IoctlFind, hfind]
    cases l.find? fun i => (s.blinkArray i).location = location with
    | none => exact ⟨s, -1, l, rfl, .failed nofun⟩
    | some i => exact ⟨s, 0, l, rfl, .found⟩
  | sync arg =>
    obtain ⟨s', r, hexec, hstep⟩ := sync_step h arg
    exact ⟨s', r, l, hexec, hstep⟩
  | tick =>
    obtain ⟨s', hloop, hres⟩ := taskletLoop_eq (n := NUM_SLOTS + 1) h.lists
      (Nat.lt_succ_of_le (Linked.length_le h.lists h.slots))
    rw [exec, mp1RtcTasklet, hloop]
    exact ⟨s', 0, l, rfl, .ticked hres⟩

/-! ## The invariant -/

/-- `mp1_ioctl_add` accepts location 0 only when no structure is left. -/
def Allowed (s : State) (c : Call) : Prop :=
  ∀ arg, c = .add arg → arg.location = 0 → mp1Malloc s = none

theorem init_inv (vmem : ℕ → UInt8) : Inv (init vmem) [] :=
  ⟨Linked.nil_iff.mpr rfl, by simp, by simp⟩

/-- A structure that looks free is not on the list. -/
theorem Inv.malloc_notMem (h : Inv s l) (hfree : mp1Malloc s = some i) : i ∉ l :=
  fun hi => h.used i hi (mp1Malloc_some hfree).2.1

theorem syncedState_blinkArray (s : State) (esi edi j : ℕ) :
    (syncedState s esi edi).blinkArray j =
      if j = edi then syncCopy (s.blinkArray esi) (s.blinkArray j) else s.blinkArray j := by
  rw [show (syncedState s esi edi).blinkArray j = _ from Function.update_apply ..]
  split
  · next hj => rw [hj]
  · rfl

/-- A synchronisation changes no pointer and no location. -/
theorem syncedState_unchanged (s : State) (esi edi j : ℕ) :
    ((syncedState s esi edi).blinkArray j).next = (s.blinkArray j).next ∧
      ((syncedState s esi edi).blinkArray j).location = (s.blinkArray j).location := by
  rw [syncedState_blinkArray]
  split <;> exact ⟨rfl, rfl⟩

theorem mem_of_removed {j : ℕ} (hj : j ∈ x ++ y) (i : ℕ) : j ∈ x ++ i :: y :=
  ((List.sublist_cons_self i y).append_left x).subset hj

theorem Step.lists (h : Inv s l) (hstep : Step s l c s' r l') : s'.Lists l' := by
  cases hstep with
  | failed | found => exact h.lists
  | added hfree hlocation hhead hnew hold hvmem =>
    have hi := h.malloc_notMem hfree
    rw [State.Lists, hhead]
    exact Linked.insert h.lists (by rw [hnew]; rfl) fun j hj => by
      rw [hold j fun hji => hi (hji ▸ hj)]
  | removed hl hfind hbefore hi hlists hothers hvmem => exact hlists
  | synced hesi hesil hedi hedil =>
    exact Linked.congr h.lists fun j _ => (syncedState_unchanged s _ _ j).1
  | ticked hres =>
    rw [State.Lists, hres.head]
    refine Linked.congr h.lists fun j hj => ?_
    rw [hres.listed j hj]
    exact (tickStruct_unchanged _).1

theorem Step.slots (h : Inv s l) (hstep : Step s l c s' r l') : ∀ j ∈ l', j < NUM_SLOTS := by
  cases hstep with
  | failed | found | synced | ticked => exact h.slots
  | added hfree hlocation hhead hnew hold hvmem =>
    intro j hj
    rcases List.mem_cons.mp hj with rfl | hj
    · exact (mp1Malloc_some hfree).1
    · exact h.slots j hj
  | removed hl hfind hbefore hi hlists hothers hvmem =>
    subst hl
    exact fun j hj => h.slots j (mem_of_removed hj _)

theorem Step.inv (h : Inv s l) (hstep : Step s l c s' r l') (hallowed : Allowed s c) :
    Inv s' l' := by
  refine ⟨hstep.lists h, hstep.slots h, ?_⟩
  cases hstep with
  | failed | found => exact h.used
  | added hfree hlocation hhead hnew hold hvmem =>
    have hi := h.malloc_notMem hfree
    intro j hj
    rcases List.mem_cons.mp hj with rfl | hj
    · rw [hnew]
      intro hzero
      rw [hallowed _ rfl hzero] at hfree
      cases hfree
    · rw [hold j fun hji => hi (hji ▸ hj)]
      exact h.used j hj
  | removed hl hfind hbefore hi hlists hothers hvmem =>
    subst hl
    intro j hj hzero
    refine h.used j (mem_of_removed hj _) ?_
    exact (congrArg BlinkStruct.location (hothers j hj)).symm.trans hzero
  | synced hesi hesil hedi hedil =>
    intro j hj
    rw [(syncedState_unchanged s _ _ j).2]
    exact h.used j hj
  | ticked hres =>
    intro j hj
    rw [hres.listed j hj, (tickStruct_unchanged _).2.1]
    exact h.used j hj

/-! ## Runs -/

/-- The structures on the list are distinct and in the array, and the allocator does not
give away any of them. -/
def Integrity (s : State) : Prop :=
  ∃ l, s.Lists l ∧ l.Nodup ∧ (∀ i ∈ l, i < NUM_SLOTS) ∧ ∀ i, mp1Malloc s = some i → i ∉ l

/-- What a successful call does to the list `l`. -/
def Changes (s : State) (l : List ℕ) (s' : State) (l' : List ℕ) : Call → Prop
  | .add arg => ∃ i, i ∉ l ∧ l' = i :: l ∧ s'.blinkArray i = newStruct s arg ∧
      ∀ j, j ≠ i → s'.blinkArray j = s.blinkArray j
  | .remove arg => ∃ x i y, l = x ++ i :: y ∧ l' = x ++ y ∧
      (∀ j ∈ x, (s.blinkArray j).location ≠ arg.toUInt16) ∧
      (s.blinkArray i).location = arg.toUInt16 ∧
      ∀ j ∈ x ++ y, (s'.blinkArray j).unlinked = (s.blinkArray j).unlinked
  | .find _ | .sync _ | .tick => l' = l

/-- A call fails and changes nothing, or it does what it is meant to do. -/
def Effect (s : State) (c : Call) (s' : State) (r : ℤ) : Prop :=
  ∃ l l', s.Lists l ∧ s'.Lists l' ∧
    (r = -1 ∧ s'.mp1ListHead = s.mp1ListHead ∧ s'.blinkArray = s.blinkArray ∨
      r = 0 ∧ Changes s l s' l' c)

/-- All calls of the run return, and keep the list. -/
structure KeepsList (vmem : ℕ → UInt8) (cs : List Call) : Prop where
  integrity : ∀ p, p <+: cs → ∃ s, after vmem p = some s ∧ Integrity s
  effects : EachNext (fun p c => ∃ s s' r, after vmem p = some s ∧ exec s c = some (s', r) ∧
    Effect s c s' r) cs

theorem Inv.integrity (h : Inv s l) : Integrity s :=
  ⟨l, h.lists, h.lists.nodup, h.slots, fun _ => h.malloc_notMem⟩

theorem Step.effect (h : Inv s l) (hstep : Step s l c s' r l') (h' : Inv s' l') :
    Effect s c s' r := by
  refine ⟨l, l', h.lists, h'.lists, ?_⟩
  cases hstep with
  | failed => exact Or.inl ⟨rfl, rfl, rfl⟩
  | added hfree hlocation hhead hnew hold hvmem =>
    exact Or.inr ⟨rfl, _, h.malloc_notMem hfree, rfl, hnew, hold⟩
  | removed hl hfind hbefore hi hlists hothers hvmem =>
    exact Or.inr ⟨rfl, _, _, _, hl, rfl, hbefore, hi, hothers⟩
  | found | synced | ticked => exact Or.inr ⟨rfl, rfl⟩

/-- The calls of a run in which location 0 is accepted only when no structure is left. -/
def AllowedCalls (vmem : ℕ → UInt8) (cs : List Call) : Prop :=
  EachNext (fun p c => ∀ s, after vmem p = some s → Allowed s c) cs

theorem after_inv (hallowed : AllowedCalls vmem cs) :
    ∃ s l, after vmem cs = some s ∧ Inv s l := by
  induction cs using List.reverseRecOn with
  | nil => exact ⟨init vmem, [], after_nil vmem, init_inv vmem⟩
  | append_singleton cs c ih =>
    obtain ⟨hbefore, hc⟩ := eachNext_concat.mp hallowed
    obtain ⟨s, l, hs, hinv⟩ := ih hbefore
    obtain ⟨s', r, l', hexec, hstep⟩ := exec_step hinv c
    refine ⟨s', l', ?_, hstep.inv hinv (hc s hs)⟩
    rw [after_concat, hs, Option.bind_some, hexec]
    rfl

/-- If location 0 is accepted, the allocator gives away the same structure again. -/
theorem not_integrity_of_add {arg : BlinkStruct} (hzero : arg.location = 0)
    (hfree : mp1Malloc s = some i) : ¬ Integrity (mp1IoctlAdd s arg).1 := by
  obtain ⟨hlt, -, hbefore⟩ := mp1Malloc_some hfree
  have hsmall : ¬ 80 * 25 ≤ arg.location := by rw [hzero]; decide
  rw [mp1IoctlAdd_eq hsmall hfree]
  rintro ⟨l, hlists, -, -, hmalloc⟩
  obtain ⟨l', rfl, -⟩ := Linked.some_iff.mp hlists
  refine hmalloc i ?_ List.mem_cons_self
  refine mallocLoop_eq (Nat.zero_le i) (by omega) ?_ fun j _ hj => ?_
  · dsimp only
    rw [Function.update_self]
    exact hzero
  · have hji : j ≠ i := by omega
    dsimp only
    rw [Function.update_of_ne hji]
    exact hbefore j hj

/-- The list is kept in exactly the runs in which `mp1_ioctl_add` accepts location 0 only
when no structure is left, that is, not at all. -/
theorem keepsList_iff (vmem : ℕ → UInt8) (cs : List Call) :
    KeepsList vmem cs ↔ AllowedCalls vmem cs := by
  constructor
  · rintro ⟨hintegrity, -⟩ p c hpre s hs arg rfl hzero
    by_contra hsome
    obtain ⟨i, hfree⟩ := Option.ne_none_iff_exists'.mp hsome
    obtain ⟨s', hs', hint⟩ := hintegrity _ hpre
    rw [after_concat, hs, Option.bind_some] at hs'
    obtain rfl := Option.some.inj hs'
    exact not_integrity_of_add hzero hfree hint
  · intro hallowed
    refine ⟨fun p hp => ?_, fun p c hpre => ?_⟩
    · obtain ⟨s, l, hs, hinv⟩ := after_inv (hallowed.of_prefix hp)
      exact ⟨s, hs, hinv.integrity⟩
    · obtain ⟨hbefore, hc⟩ := eachNext_concat.mp (hallowed.of_prefix hpre)
      obtain ⟨s, l, hs, hinv⟩ := after_inv hbefore
      obtain ⟨s', r, l', hexec, hstep⟩ := exec_step hinv c
      exact ⟨s, s', r, hs, hexec, hstep.effect hinv (hstep.inv hinv (hc s hs))⟩

/-- Location 0, and then location 5: the structure of the first call is used again and points
to itself. -/
theorem location_zero_cycle :
    ¬ KeepsList (fun _ => 0)
      [.add ⟨0, 65, 66, 2, 3, 0, 0, none⟩, .add ⟨5, 67, 68, 2, 3, 0, 0, none⟩] := by
  rintro ⟨hintegrity, -⟩
  obtain ⟨s, hs, l, hlists, -⟩ := hintegrity _ List.prefix_rfl
  have hself := congrArg (Option.map fun s : State => (s.mp1ListHead, (s.blinkArray 0).next)) hs
  have hcycle : s.mp1ListHead = some 0 ∧ (s.blinkArray 0).next = some 0 :=
    Prod.mk.inj (Option.some.inj hself).symm
  rw [State.Lists, hcycle.1] at hlists
  obtain ⟨l', rfl, hrest⟩ := Linked.some_iff.mp hlists
  rw [hcycle.2] at hrest
  have hlen := congrArg List.length (hlists.unique hrest)
  rw [List.length_cons] at hlen
  omega

end KudOS.Blink
