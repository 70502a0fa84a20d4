import KudOS.ModifierFlags
import KudOS.ListPositions
import KudOS.UnmappedKeys

/-!
# The modifier flags and the keys that are held

What a keyboard sends in scan code set 1, and how far the handler's flags say which of
the modifier keys are held. The handler turns `cap_flag` over for every code of a Shift
key, and it ignores the prefix byte by which the right Ctrl and Alt differ from the left.
-/

namespace KudOS

/-- A key: the prefix byte it sends, if it sends one, and the code of its press. -/
structure Key where
  lead : Option UInt8
  code : UInt8
  deriving DecidableEq, Repr

def leftCtrl : Key := ⟨none, lCtrl⟩
def leftAlt : Key := ⟨none, lAlt⟩
def leftShift : Key := ⟨none, lshift⟩
def rightShift : Key := ⟨none, rshift⟩
def capsLock : Key := ⟨none, caplock⟩

/-- The bytes that announce a key outside the block the codes were first made for. -/
def leadBytes : List UInt8 := [0xE0, 0xE1]

/-- The prefix byte just sent, the keys held, and how often Caps Lock has been pressed. -/
structure Keyboard where
  lead : Option UInt8
  held : Key → Bool
  capsPresses : ℕ

theorem Modifiers.handle_other {sc : UInt8} (h : sc ∉ modifierCodes) (f : Modifiers) :
    f.handle sc = f := by
  simp only [modifierCodes, List.mem_cons, List.not_mem_nil, or_false, not_or] at h
  simp only [handle, toggleCodes, h, List.mem_cons, List.not_mem_nil, or_false, if_false]

namespace Keyboard

def idle : Keyboard := ⟨none, fun _ => false, 0⟩

/-- The keyboard after it has sent a byte: a prefix, the press of a key, or its release,
which is the press with the top bit set. -/
def send (k : Keyboard) (sc : UInt8) : Keyboard :=
  if k.lead = none ∧ sc ∈ leadBytes then { k with lead := some sc }
  else if sc < keyRelease then
    { lead := none
      held := Function.update k.held ⟨k.lead, sc⟩ true
      capsPresses := if ⟨k.lead, sc⟩ = capsLock ∧ k.held capsLock = false then k.capsPresses + 1
        else k.capsPresses }
  else { k with lead := none, held := Function.update k.held ⟨k.lead, sc - keyRelease⟩ false }

/-- A key is pressed before it is released. While it is held its press may be repeated,
except that of Caps Lock. -/
def CanSend (k : Keyboard) (sc : UInt8) : Prop :=
  k.lead = none ∧ sc ∈ leadBytes ∨
    sc < keyRelease ∧ (⟨k.lead, sc⟩ = capsLock → k.held capsLock = false) ∨
    keyRelease ≤ sc ∧ k.held ⟨k.lead, sc - keyRelease⟩ = true

/-- The flags that tell which keys are held. -/
def modifiers (k : Keyboard) : Modifiers where
  ctrl := k.held leftCtrl
  alt := k.held leftAlt
  cap := (k.held leftShift || k.held rightShift) ^^ decide (k.capsPresses % 2 = 1)

/-- A Shift key is pressed only while none is held. Of the keys with a prefix, the right
Ctrl is pressed only while the left one is held and released only while it is not, the
right Alt is pressed only while the left one is held and never released, and none sends
the code of a Shift key or of Caps Lock. -/
def Followed (k : Keyboard) (sc : UInt8) : Prop :=
  if k.lead = none then
    sc ∈ [lshift, rshift] → k.held leftShift = false ∧ k.held rightShift = false
  else (sc = lCtrl → k.held leftCtrl = true) ∧ (sc = lCtrlRelease → k.held leftCtrl = false) ∧
    (sc = lAlt → k.held leftAlt = true) ∧ sc ≠ lAltRelease ∧ sc ∉ toggleCodes

/-- The left and the right Shift key are not held at the same time. -/
def OneShift (k : Keyboard) : Prop := ¬ (k.held leftShift = true ∧ k.held rightShift = true)

instance (k : Keyboard) (sc : UInt8) : Decidable (k.CanSend sc) :=
  inferInstanceAs (Decidable (_ ∨ _))
instance (k : Keyboard) (sc : UInt8) : Decidable (k.Followed sc) :=
  inferInstanceAs (Decidable (ite _ _ _))

def sends (k : Keyboard) (codes : List UInt8) : Keyboard := codes.foldl send k

theorem sends_concat (k : Keyboard) (codes : List UInt8) (sc : UInt8) :
    k.sends (codes ++ [sc]) = (k.sends codes).send sc := by
  rw [sends, List.foldl_append]
  rfl

/-! ## One byte -/

variable {k : Keyboard} {sc : UInt8}

theorem send_lead (h : k.lead = none) (hsc : sc ∈ leadBytes) :
    k.send sc = { k with lead := some sc } := by
  rw [send, if_pos ⟨h, hsc⟩]

/-- Whether a key is held after a byte that is no prefix. -/
theorem held_send (h : ¬ (k.lead = none ∧ sc ∈ leadBytes)) (q : Key) :
    (k.send sc).held q =
      if sc < keyRelease then if q = ⟨k.lead, sc⟩ then true else k.held q
      else if q = ⟨k.lead, sc - keyRelease⟩ then false else k.held q := by
  rw [send, if_neg h]
  split <;> exact Function.update_apply ..

theorem capsPresses_send (h : ¬ (k.lead = none ∧ sc ∈ leadBytes)) :
    (k.send sc).capsPresses =
      if sc < keyRelease ∧ ⟨k.lead, sc⟩ = capsLock ∧ k.held capsLock = false then
        k.capsPresses + 1
      else k.capsPresses := by
  rw [send, if_neg h]
  split
  · rename_i hlt
    simp only [hlt, true_and]
  · rename_i hlt
    rw [if_neg fun hc => hlt hc.1]

/-- A byte behind a prefix is for none of the modifier keys. -/
theorem held_send_of_lead (h : k.lead ≠ none) (c : UInt8) :
    (k.send sc).held ⟨none, c⟩ = k.held ⟨none, c⟩ := by
  have hne : ∀ d, (⟨none, c⟩ : Key) ≠ ⟨k.lead, d⟩ := fun d heq => h (Key.mk.inj heq).1.symm
  rw [held_send fun hc => h hc.1, if_neg (hne sc), if_neg (hne _), ite_self]

theorem modifiers_send_of_lead (h : k.lead ≠ none) : (k.send sc).modifiers = k.modifiers := by
  have hcaps : (k.send sc).capsPresses = k.capsPresses := by
    rw [capsPresses_send fun hc => h hc.1, if_neg]
    exact fun hc => h (Key.mk.inj hc.2.1).1
  simp only [modifiers, leftCtrl, leftAlt, leftShift, rightShift, held_send_of_lead h, hcaps]

/-- A byte without a prefix, and the key whose press code is `c`. -/
theorem held_send_code (h : k.lead = none) {c : UInt8}
    (hc : c ∈ [lCtrl, lAlt, lshift, rshift, caplock]) :
    (k.send sc).held ⟨none, c⟩ =
      if sc = c then true else if sc = c + keyRelease then false else k.held ⟨none, c⟩ := by
  have hcodes : ∀ c ∈ [lCtrl, lAlt, lshift, rshift, caplock], c < keyRelease ∧
      ¬ c + keyRelease < keyRelease ∧ c ∉ leadBytes ∧ c + keyRelease ∉ leadBytes := by
    decide +kernel
  obtain ⟨hlt, hge, hlead, hlead'⟩ := hcodes c hc
  by_cases hsc : sc ∈ leadBytes
  · have hpress : sc ≠ c := fun heq => hlead (heq ▸ hsc)
    have hrelease : sc ≠ c + keyRelease := fun heq => hlead' (heq ▸ hsc)
    rw [send_lead h hsc, if_neg hpress, if_neg hrelease]
  rw [held_send fun hc => hsc hc.2, h]
  by_cases hpress : sc < keyRelease
  · have hrelease : sc ≠ c + keyRelease := fun heq => hge (heq ▸ hpress)
    simp only [if_pos hpress, if_neg hrelease, Key.mk.injEq, true_and, eq_comm (a := c)]
  · have hne : sc ≠ c := fun heq => hpress (heq ▸ hlt)
    have hiff : c = sc - keyRelease ↔ sc = c + keyRelease := by
      constructor
      · rintro rfl
        exact (UInt8.sub_add_cancel ..).symm
      · rintro rfl
        exact (UInt8.add_sub_cancel ..).symm
    simp only [if_neg hpress, if_neg hne, Key.mk.injEq, true_and, hiff]

/-- Caps Lock is not repeated, so that each of its presses counts. -/
theorem capsPresses_send_code (h : k.lead = none) (hcan : k.CanSend sc) :
    (k.send sc).capsPresses = if sc = caplock then k.capsPresses + 1 else k.capsPresses := by
  by_cases hsc : sc ∈ leadBytes
  · have hne : sc ≠ caplock := by
      rintro rfl
      exact absurd hsc (by decide)
    rw [send_lead h hsc, if_neg hne]
  rw [capsPresses_send fun hc => hsc hc.2, h]
  by_cases hcaps : sc = caplock
  · subst hcaps
    have hup : k.held capsLock = false := by
      rcases hcan with ⟨-, hc⟩ | ⟨-, hup⟩ | ⟨hge, -⟩
      · exact absurd hc hsc
      · exact hup (by rw [h]; rfl)
      · exact absurd hge (by decide)
    rw [if_pos ⟨by decide, rfl, hup⟩, if_pos rfl]
  · rw [if_neg hcaps, if_neg]
    exact fun hc => hcaps (Key.mk.inj hc.2.1).2

/-- The flags that tell which keys are held, after a byte without a prefix. -/
theorem modifiers_send (h : k.lead = none) (hcan : k.CanSend sc) :
    (k.send sc).modifiers =
      { ctrl := if sc = lCtrl then true else if sc = lCtrlRelease then false else k.held leftCtrl
        alt := if sc = lAlt then true else if sc = lAltRelease then false else k.held leftAlt
        cap := ((if sc = lshift then true else if sc = lshiftRelease then false
            else k.held leftShift) ||
          (if sc = rshift then true else if sc = rshiftRelease then false
            else k.held rightShift)) ^^
          decide ((if sc = caplock then k.capsPresses + 1 else k.capsPresses) % 2 = 1) } := by
  rw [← capsPresses_send_code h hcan]
  ext1
  · exact held_send_code h (c := lCtrl) (by decide)
  · exact held_send_code h (c := lAlt) (by decide)
  · exact congrArg₂ (fun l r => (l || r) ^^ _) (held_send_code h (c := lshift) (by decide))
      (held_send_code h (c := rshift) (by decide))

/-- A key that is released has been held. -/
theorem CanSend.held (hcan : k.CanSend sc) (h : k.lead = none)
    (hsc : sc ∈ [lAltRelease, lshiftRelease, rshiftRelease]) :
    k.held ⟨none, sc - keyRelease⟩ = true := by
  have hcodes : ∀ sc ∈ [lAltRelease, lshiftRelease, rshiftRelease],
      sc ∉ leadBytes ∧ ¬ sc < keyRelease := by
    decide +kernel
  obtain ⟨hlead, hge⟩ := hcodes sc hsc
  rcases hcan with ⟨-, hc⟩ | ⟨hlt, -⟩ | ⟨-, hheld⟩
  · exact absurd hc hlead
  · exact absurd hlt hge
  · rwa [h] at hheld

theorem handle_iff_of_code (h : k.lead = none) (hone : k.OneShift) (hcan : k.CanSend sc) :
    k.modifiers.handle sc = (k.send sc).modifiers ↔ k.Followed sc := by
  have hheld := hcan.held h
  rw [modifiers_send h hcan, Followed, if_pos h]
  by_cases hsc : sc ∈ modifierCodes
  · simp only [modifierCodes, List.mem_cons, List.not_mem_nil, or_false] at hsc
    rcases hsc with rfl | rfl | rfl | rfl | rfl | rfl | rfl | rfl | rfl | rfl
    all_goals simp [modifiers, Modifiers.handle, toggleCodes]
    · exact hheld (by decide)
    · cases k.held leftShift <;> cases k.held rightShift <;> simp
    · cases k.held leftShift <;> cases k.held rightShift <;> simp
    · have hl : k.held leftShift = true := hheld (by decide)
      have hr : k.held rightShift = false := by simpa [OneShift, hl] using hone
      simp [hl, hr]
    · have hr : k.held rightShift = true := hheld (by decide)
      have hl : k.held leftShift = false := by simpa [OneShift, hr] using hone
      simp [hl, hr]
    · have hodd : decide ((k.capsPresses + 1) % 2 = 1) = !decide (k.capsPresses % 2 = 1) := by
        rw [← decide_not, decide_eq_decide]
        omega
      simp [hodd]
  · have hsame := Modifiers.handle_other hsc k.modifiers
    simp only [modifierCodes, List.mem_cons, List.not_mem_nil, or_false, not_or] at hsc
    rw [hsame]
    simp only [hsc, if_false, List.mem_cons, List.not_mem_nil, or_false, false_imp_iff, iff_true]
    rfl

/-- A code behind a prefix is handled as that of another key. -/
theorem handle_iff_of_lead (h : k.lead ≠ none) :
    k.modifiers.handle sc = (k.send sc).modifiers ↔ k.Followed sc := by
  rw [modifiers_send_of_lead h, Followed, if_neg h]
  by_cases hsc : sc ∈ modifierCodes
  · simp only [modifierCodes, List.mem_cons, List.not_mem_nil, or_false] at hsc
    rcases hsc with rfl | rfl | rfl | rfl | rfl | rfl | rfl | rfl | rfl | rfl <;>
      simp [modifiers, Modifiers.handle, toggleCodes]
  · have hsame := Modifiers.handle_other hsc k.modifiers
    simp only [modifierCodes, List.mem_cons, List.not_mem_nil, or_false, not_or] at hsc
    simp [hsame, toggleCodes, hsc, -lCtrl, -lAlt, -lCtrlRelease, -lAltRelease, -lshift, -rshift,
      -lshiftRelease, -rshiftRelease, -caplock]

/-- The step: the flags follow the keys over one byte exactly if the byte is as
`Followed` says. -/
theorem handle_iff (hone : k.OneShift) (hcan : k.CanSend sc) :
    k.modifiers.handle sc = (k.send sc).modifiers ↔ k.Followed sc := by
  by_cases h : k.lead = none
  · exact handle_iff_of_code h hone hcan
  · exact handle_iff_of_lead h

/-- A Shift key is pressed only while the other one is not held. -/
theorem OneShift.send (hone : k.OneShift) (hf : k.Followed sc) : (k.send sc).OneShift := by
  rintro ⟨hl, hr⟩
  by_cases h : k.lead = none
  · rw [Followed, if_pos h] at hf
    rw [leftShift, held_send_code h (by decide)] at hl
    rw [rightShift, held_send_code h (by decide)] at hr
    by_cases hlp : sc = lshift
    · subst hlp
      have hup : k.held rightShift = false := (hf (by decide)).2
      rw [if_neg (by decide), if_neg (by decide)] at hr
      exact Bool.false_ne_true (hup.symm.trans hr)
    by_cases hrp : sc = rshift
    · subst hrp
      have hup : k.held leftShift = false := (hf (by decide)).1
      rw [if_neg (by decide), if_neg (by decide)] at hl
      exact Bool.false_ne_true (hup.symm.trans hl)
    rw [if_neg hlp] at hl
    rw [if_neg hrp] at hr
    split at hl
    · exact Bool.false_ne_true hl
    split at hr
    · exact Bool.false_ne_true hr
    · exact hone ⟨hl, hr⟩
  · rw [leftShift, held_send_of_lead h] at hl
    rw [rightShift, held_send_of_lead h] at hr
    exact hone ⟨hl, hr⟩

end Keyboard

/-! ## Runs -/

/-- A scan code is handled, or a step of the kernel is taken in which it is not. -/
inductive KeyboardStep where
  | code (fr : StackFrame) (sc : UInt8)
  | other (a : Kernel.Step) (ha : ∀ y, a ≠ .interrupt y)

def codesOf (steps : List KeyboardStep) : List UInt8 := steps.filterMap fun
  | .code _ sc => some sc
  | .other _ _ => none

/-- What a physical keyboard can send. -/
def PhysicalCodes (codes : List UInt8) : Prop :=
  EachNext (fun p sc => (Keyboard.idle.sends p).CanSend sc) codes

/-- Every code is one after which the flags follow the keys. -/
def AllFollowed (codes : List UInt8) : Prop :=
  EachNext (fun p sc => (Keyboard.idle.sends p).Followed sc) codes

instance (codes : List UInt8) : Decidable (PhysicalCodes codes) :=
  inferInstanceAs (Decidable (EachNext _ _))
instance (codes : List UInt8) : Decidable (AllFollowed codes) :=
  inferInstanceAs (Decidable (EachNext _ _))

@[simp] theorem codesOf_concat_code (steps : List KeyboardStep) (fr : StackFrame) (sc : UInt8) :
    codesOf (steps ++ [.code fr sc]) = codesOf steps ++ [sc] := by
  simp [codesOf]

@[simp] theorem codesOf_concat_other (steps : List KeyboardStep) (a : Kernel.Step)
    (ha : ∀ y, a ≠ .interrupt y) : codesOf (steps ++ [.other a ha]) = codesOf steps := by
  simp [codesOf]

theorem codesOf_prefix {p steps : List KeyboardStep} (h : p <+: steps) :
    codesOf p <+: codesOf steps := h.filterMap _

namespace Kernel

variable {m : Machine} {s₀ s s' : Kernel}

def keyboardStep (m : Machine) (s : Kernel) : KeyboardStep → Except Stop Kernel
  | .code fr sc => s.keyboardHandler m fr sc
  | .other a _ => s.step m a

/-- A run from `keyboard_init` on. -/
def keyboardRun (m : Machine) (s₀ : Kernel) (steps : List KeyboardStep) : Except Stop Kernel :=
  steps.foldlM (fun s a => s.keyboardStep m a) (s₀.onTty Tty.keyboardInit)

/-- In every state of the run the flags say which keys are held. -/
def TracksKeys (m : Machine) (s₀ : Kernel) (steps : List KeyboardStep) : Prop :=
  ∀ p s, p <+: steps → s₀.keyboardRun m p = .ok s →
    s.tty.modifiers = (Keyboard.idle.sends (codesOf p)).modifiers

theorem keyboardRun_concat {steps : List KeyboardStep} {a : KeyboardStep} :
    s₀.keyboardRun m (steps ++ [a]) = .ok s' ↔
      ∃ s, s₀.keyboardRun m steps = .ok s ∧ s.keyboardStep m a = .ok s' := by
  rw [keyboardRun, List.foldlM_append, bind_eq_ok, keyboardRun]
  simp only [List.foldlM_cons, List.foldlM_nil, bind_pure]

/-- A run of codes that the flags follow, by induction on its steps. -/
theorem tracked_of_followed {steps : List KeyboardStep} (hrun : s₀.keyboardRun m steps = .ok s)
    (hphys : PhysicalCodes (codesOf steps)) (hall : AllFollowed (codesOf steps)) :
    s.tty.modifiers = (Keyboard.idle.sends (codesOf steps)).modifiers ∧
      (Keyboard.idle.sends (codesOf steps)).OneShift := by
  induction steps using List.reverseRecOn generalizing s with
  | nil =>
    cases hrun
    exact ⟨rfl, fun h => Bool.false_ne_true h.1⟩
  | append_singleton steps a ih =>
    obtain ⟨s₁, hrun₁, hstep⟩ := keyboardRun_concat.mp hrun
    cases a with
    | code fr sc =>
      rw [codesOf_concat_code] at hphys hall ⊢
      obtain ⟨hphys₁, hcan⟩ := eachNext_concat.mp hphys
      obtain ⟨hall₁, hf⟩ := eachNext_concat.mp hall
      obtain ⟨hmods, hone⟩ := ih hrun₁ hphys₁ hall₁
      rw [Keyboard.sends_concat]
      refine ⟨?_, hone.send hf⟩
      rw [keyboardHandler_modifiers hstep, hmods]
      exact (Keyboard.handle_iff hone hcan).mpr hf
    | other a ha =>
      rw [codesOf_concat_other] at hphys hall ⊢
      obtain ⟨hmods, hone⟩ := ih hrun₁ hphys hall
      exact ⟨(step_modifiers ha hstep).trans hmods, hone⟩

/-- The first code that is not as `Followed` says leaves the flags wrong. -/
theorem followed_of_tracked {steps : List KeyboardStep} (hrun : s₀.keyboardRun m steps = .ok s)
    (hphys : PhysicalCodes (codesOf steps)) (htracks : TracksKeys m s₀ steps) :
    AllFollowed (codesOf steps) := by
  induction steps using List.reverseRecOn generalizing s with
  | nil => exact eachNext_nil
  | append_singleton steps a ih =>
    obtain ⟨s₁, hrun₁, hstep⟩ := keyboardRun_concat.mp hrun
    have htracks₁ : TracksKeys m s₀ steps := fun p s hp =>
      htracks p s (hp.trans (List.prefix_append steps [a]))
    cases a with
    | code fr sc =>
      have hlast := htracks _ s List.prefix_rfl hrun
      rw [codesOf_concat_code] at hphys hlast ⊢
      obtain ⟨hphys₁, hcan⟩ := eachNext_concat.mp hphys
      have hall := ih hrun₁ hphys₁ htracks₁
      obtain ⟨hmods, hone⟩ := tracked_of_followed hrun₁ hphys₁ hall
      refine eachNext_concat.mpr ⟨hall, (Keyboard.handle_iff hone hcan).mp ?_⟩
      rw [← hmods, ← keyboardHandler_modifiers hstep, hlast, Keyboard.sends_concat]
    | other a ha =>
      rw [codesOf_concat_other] at hphys ⊢
      exact ih hrun₁ hphys htracks₁

/-- From `keyboard_init` on, whatever the kernel does between two scan codes of a physical
keyboard, the flags track the held keys exactly if every code is as `Followed` says. -/
theorem tracksKeys_iff {steps : List KeyboardStep} (hrun : s₀.keyboardRun m steps = .ok s)
    (hphys : PhysicalCodes (codesOf steps)) :
    TracksKeys m s₀ steps ↔ AllFollowed (codesOf steps) := by
  constructor
  · exact followed_of_tracked hrun hphys
  · intro hall p s' hp hp'
    have hcodes := codesOf_prefix hp
    exact (tracked_of_followed hp' (hphys.of_prefix hcodes) (hall.of_prefix hcodes)).1

/-- Left Ctrl and Caps Lock down and, after a call of `write`, up; Shift, a letter, and the
right Ctrl while the left one is held. -/
def trackedSteps : List KeyboardStep :=
  [.code blankFrame 0x1D, .code blankFrame 0x3A, .other (.file (.write 1 none 0)) nofun,
    .code blankFrame 0xBA, .code blankFrame 0x2A, .code blankFrame 0x1E, .code blankFrame 0xE0,
    .code blankFrame 0x1D, .code blankFrame 0xAA, .code blankFrame 0x9D]

theorem trackedSteps_track : TracksKeys shellMachine bootKernel trackedSteps := by
  have hrun : ∃ s, bootKernel.keyboardRun shellMachine trackedSteps = .ok s := ⟨_, rfl⟩
  obtain ⟨s, hrun⟩ := hrun
  exact (tracksKeys_iff hrun (by decide +kernel)).mpr (by decide +kernel)

/-- The left Shift key is held until its press is repeated. -/
theorem repeatedShift_not_tracked : ∃ steps s, codesOf steps = [0x2A, 0x2A] ∧
    PhysicalCodes (codesOf steps) ∧ bootKernel.keyboardRun shellMachine steps = .ok s ∧
    ¬ TracksKeys shellMachine bootKernel steps := by
  have hcodes : codesOf [.code blankFrame 0x2A, .code blankFrame 0x2A] = [0x2A, 0x2A] := rfl
  have hphys : PhysicalCodes [0x2A, 0x2A] := by decide +kernel
  have hall : ¬ AllFollowed [0x2A, 0x2A] := by decide +kernel
  refine ⟨_, _, hcodes, hcodes ▸ hphys, rfl, fun htracks => hall ?_⟩
  exact hcodes ▸ followed_of_tracked rfl (hcodes ▸ hphys) htracks

end Kernel
end KudOS
