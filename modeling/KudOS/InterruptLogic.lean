import Mathlib.Logic.Function.Iterate
import Mathlib.Logic.Relation
import Mathlib.Tactic.Common

/-!
# A logic for code that interrupts may suspend

Code is seen at the granularity of its port accesses and of the interrupt flag. Handlers
nest: an interrupt pushes the running code, and its handler may be interrupted in turn.
What the code relies on is a view of the devices that every handler restores. `Ends` is
the weakest precondition of code that runs alone; the run lemma says that it is also one
of code that is interrupted, anywhere and to any depth.
-/

namespace KudOS.Interrupts

/-- The remaining code of a kernel routine. `leave` returns to user mode whatever is on
the stack, `iret` returns to the code that was interrupted, and `spin` does nothing more. -/
inductive Code where
  | user
  | leave
  | iret
  | spin
  | outb (v : BitVec 8) (port : ℕ) (next : Code)
  | inb (port : ℕ) (next : BitVec 8 → Code)
  | cli (next : Code)
  | sti (next : Code)

/-- The devices: what port accesses do, the interrupt that is pending together with the
state behind its acknowledge cycle, and what the devices do by themselves. -/
structure Board (D V : Type*) where
  write : ℕ → BitVec 8 → D → D
  read : ℕ → D → BitVec 8 × D
  accept : D → Option (V × D)
  event : D → D → Prop

/-- The devices after code that nothing interrupts. -/
def Board.alone {D V : Type*} (B : Board D V) : Code → D → D
  | .outb v p k, d => B.alone k (B.write p v d)
  | .inb p k, d => B.alone (k (B.read p d).1) (B.read p d).2
  | .cli k, d => B.alone k d
  | .sti k, d => B.alone k d
  | .user, d | .leave, d | .iret, d | .spin, d => d

/-- A processor. The stack holds the interrupted codes, the last one first. -/
structure Cpu (D : Type*) where
  dev : D
  flag : Bool
  running : Code
  stack : List Code

inductive Label where
  | exec
  | leave
  | abandon
  | interrupt
  | event
  | call
  deriving DecidableEq, Repr

variable {D V W : Type*}

/-- One step. An interrupt clears the flag and `iret` sets it again, because the
interrupted code had it set. A system call leaves it. -/
inductive Step (B : Board D V) (handler : V → Code → Prop) (call : Code → Prop) :
    Cpu D → Label → Cpu D → Prop where
  | outb (d f v p k st) :
    Step B handler call ⟨d, f, .outb v p k, st⟩ .exec ⟨B.write p v d, f, k, st⟩
  | inb (d f p k st) :
    Step B handler call ⟨d, f, .inb p k, st⟩ .exec ⟨(B.read p d).2, f, k (B.read p d).1, st⟩
  | cli (d f k st) : Step B handler call ⟨d, f, .cli k, st⟩ .exec ⟨d, false, k, st⟩
  | sti (d f k st) : Step B handler call ⟨d, f, .sti k, st⟩ .exec ⟨d, true, k, st⟩
  | iret (d f c st) : Step B handler call ⟨d, f, .iret, c :: st⟩ .exec ⟨d, true, c, st⟩
  | leave (d f) : Step B handler call ⟨d, f, .leave, []⟩ .leave ⟨d, true, .user, []⟩
  | abandon (d f c st) : Step B handler call ⟨d, f, .leave, c :: st⟩ .abandon ⟨d, true, .user, []⟩
  | interrupt {d v d' h} (c st) (hv : B.accept d = some (v, d')) (hh : handler v h) :
    Step B handler call ⟨d, true, c, st⟩ .interrupt ⟨d', false, h, c :: st⟩
  | event {d d'} (f c st) (h : B.event d d') : Step B handler call ⟨d, f, c, st⟩ .event ⟨d', f, c, st⟩
  | call {c} (d f) (h : call c) : Step B handler call ⟨d, f, .user, []⟩ .call ⟨d, f, c, []⟩

/-- What code with the flag `f` may rely on: a view of the devices that they do not change
by themselves, and what holds of it. -/
structure Observer (B : Board D V) (W : Type*) where
  view : Bool → D → W
  view_event : ∀ f d d', B.event d d' → view f d' = view f d
  Good : Bool → W → Prop

namespace Observer

variable {B : Board D V} (O : Observer B W)

/-- Code that starts with the flag `f` and the view `w` keeps `Good`, and it reaches
`post` if it returns and `exit` if it leaves for user mode. -/
def Ends (post exit : W → Prop) : Code → Bool → W → Prop
  | .user, f, w => O.Good f w ∧ f = true ∧ exit w
  | .leave, f, w =>
    O.Good f w ∧ ∀ d, O.view f d = w → O.Good true (O.view true d) ∧ exit (O.view true d)
  | .iret, f, w => O.Good f w ∧ ∀ d, O.view f d = w → post (O.view true d)
  | .spin, f, w => O.Good f w
  | .outb v p k, f, w =>
    O.Good f w ∧ ∀ d, O.view f d = w → Ends post exit k f (O.view f (B.write p v d))
  | .inb p k, f, w => O.Good f w ∧
    ∀ d, O.view f d = w → Ends post exit (k (B.read p d).1) f (O.view f (B.read p d).2)
  | .cli k, f, w => O.Good f w ∧ ∀ d, O.view f d = w → Ends post exit k false (O.view false d)
  | .sti k, f, w => O.Good f w ∧ ∀ d, O.view f d = w → Ends post exit k true (O.view true d)

variable {O} {post post' exit exit' E H : W → Prop} {c : Code} {f : Bool} {w : W} {st : List Code}
  {handler : V → Code → Prop} {call : Code → Prop} {s s' : Cpu D} {l : Label}

theorem Ends.good (h : O.Ends post exit c f w) : O.Good f w := by
  cases c with
  | spin => exact h
  | _ => exact h.1

theorem Ends.mono (h : O.Ends post exit c f w) (hpost : ∀ w, post w → post' w)
    (hexit : ∀ w, exit w → exit' w) : O.Ends post' exit' c f w := by
  induction c generalizing f w with
  | user => exact ⟨h.1, h.2.1, hexit w h.2.2⟩
  | leave => exact ⟨h.1, fun d hd => ⟨(h.2 d hd).1, hexit _ (h.2 d hd).2⟩⟩
  | iret => exact ⟨h.1, fun d hd => hpost _ (h.2 d hd)⟩
  | spin => exact h
  | outb v p k ih => exact ⟨h.1, fun d hd => ih (h.2 d hd)⟩
  | inb p k ih => exact ⟨h.1, fun d hd => ih _ (h.2 d hd)⟩
  | cli k ih => exact ⟨h.1, fun d hd => ih (h.2 d hd)⟩
  | sti k ih => exact ⟨h.1, fun d hd => ih (h.2 d hd)⟩

variable (O) in
/-- Every handler gives back the view that it interrupted, or leaves in `H`. -/
def Restores (handler : V → Code → Prop) (H : W → Prop) : Prop :=
  ∀ d v d' h, O.Good true (O.view true d) → B.accept d = some (v, d') → handler v h →
    O.Ends (fun w => w = O.view true d) H h false (O.view false d')

variable (O) in
/-- The running code and the suspended codes below it, each with the view that it waits
for: the last one ends in `E`, the handlers above it may leave in `H`. -/
def Fits (E H : W → Prop) : Code → List Code → Bool → W → Prop
  | c, [] => O.Ends (fun _ => False) E c
  | c, c' :: st => O.Ends (Fits E H c' st true) H c

theorem Fits.good (h : O.Fits E H c st f w) : O.Good f w := by
  cases st with
  | nil => exact Ends.good h
  | cons c' st => exact Ends.good h

/-- The steps of the code are the same with and without suspended code below. -/
theorem Fits.iff_ends (O : Observer B W) (E H : W → Prop) (st : List Code) :
    ∃ post exit, ∀ c f w, O.Fits E H c st f w ↔ O.Ends post exit c f w := by
  cases st with
  | nil => exact ⟨_, _, fun c f w => Iff.rfl⟩
  | cons c' st => exact ⟨_, _, fun c f w => Iff.rfl⟩

/-- Suspending code is sound, because its handler restores the view. -/
theorem Fits.interrupt (hr : O.Restores handler H) {d d' : D} {v : V} {k : Code}
    (h : O.Fits E H c st true (O.view true d)) (hv : B.accept d = some (v, d'))
    (hk : handler v k) : O.Fits E H k (c :: st) false (O.view false d') := by
  refine (hr d v d' k h.good hv hk).mono ?_ fun _ hw => hw
  rintro w rfl
  exact h

/-- The state of a processor, every code on it with what it waits for. -/
def Holds (O : Observer B W) (E H : W → Prop) (s : Cpu D) : Prop :=
  O.Fits E H s.running s.stack s.flag (O.view s.flag s.dev)

/-- In user mode the flag is set, and the last routine has ended. -/
theorem Holds.user (h : O.Holds E H s) (hrun : s.running = .user) (hstack : s.stack = []) :
    s.flag = true ∧ O.Good true (O.view true s.dev) ∧ E (O.view true s.dev) := by
  rw [Holds, hrun, hstack] at h
  obtain ⟨hgood, hflag, hend⟩ := h
  rw [hflag] at hgood hend
  exact ⟨hflag, hgood, hend⟩

theorem Holds.mono (h : O.Holds E H s) (hE : ∀ w, E w → exit w) : O.Holds exit H s := by
  have hfits : ∀ (st : List Code) c f w, O.Fits E H c st f w → O.Fits exit H c st f w := by
    intro st
    induction st with
    | nil => exact fun c f w h => Ends.mono h (fun _ hw => hw) hE
    | cons c' st ih => exact fun c f w h => Ends.mono h (ih c' true) fun _ hw => hw
  exact hfits _ _ _ _ h

/-- One step, with what remains to be shown of an abandoned stack and of a call. -/
theorem Holds.step (hr : O.Restores handler H) (h : O.Holds E H s) (hs : Step B handler call s l s')
    (habandon : l = .abandon → H (O.view true s'.dev) → E (O.view true s'.dev))
    (hcall : l = .call → O.Good true (O.view true s.dev) → E (O.view true s.dev) →
      O.Holds E H s') :
    O.Holds E H s' := by
  have hcode := Fits.iff_ends O E H s.stack
  cases hs with
  | outb d f v p k st =>
    obtain ⟨post, exit, hiff⟩ := hcode
    exact (hiff _ _ _).mpr (((hiff _ _ _).mp h).2 d rfl)
  | inb d f p k st =>
    obtain ⟨post, exit, hiff⟩ := hcode
    exact (hiff _ _ _).mpr (((hiff _ _ _).mp h).2 d rfl)
  | cli d f k st =>
    obtain ⟨post, exit, hiff⟩ := hcode
    exact (hiff _ _ _).mpr (((hiff _ _ _).mp h).2 d rfl)
  | sti d f k st =>
    obtain ⟨post, exit, hiff⟩ := hcode
    exact (hiff _ _ _).mpr (((hiff _ _ _).mp h).2 d rfl)
  | iret d f c st => exact h.2 d rfl
  | leave d f => exact ⟨(h.2 d rfl).1, rfl, (h.2 d rfl).2⟩
  | abandon d f c st => exact ⟨(h.2 d rfl).1, rfl, habandon rfl (h.2 d rfl).2⟩
  | interrupt c st hv hh => exact Fits.interrupt hr h hv hh
  | event f c st he =>
    rw [Holds, O.view_event _ _ _ he]
    exact h
  | call d f hc =>
    obtain ⟨hflag, hgood, hend⟩ := h.user rfl rfl
    exact hcall rfl hgood hend

end Observer

/-- Runs all of whose steps satisfy `P`. -/
def Run (B : Board D V) (handler : V → Code → Prop) (call : Code → Prop)
    (P : Cpu D → Label → Cpu D → Prop) : Cpu D → Cpu D → Prop :=
  Relation.ReflTransGen fun s s' => ∃ l, Step B handler call s l s' ∧ P s l s'

/-- The next step of the running code; user mode and `spin` wait. -/
def Board.next (B : Board D V) : Cpu D → Cpu D
  | ⟨d, f, .outb v p k, st⟩ => ⟨B.write p v d, f, k, st⟩
  | ⟨d, f, .inb p k, st⟩ => ⟨(B.read p d).2, f, k (B.read p d).1, st⟩
  | ⟨d, _, .cli k, st⟩ => ⟨d, false, k, st⟩
  | ⟨d, _, .sti k, st⟩ => ⟨d, true, k, st⟩
  | ⟨d, _, .iret, c :: st⟩ => ⟨d, true, c, st⟩
  | ⟨d, _, .leave, []⟩ => ⟨d, true, .user, []⟩
  | s => s

/-- Code that nothing interrupts makes a run. -/
theorem Run.next {B : Board D V} {handler : V → Code → Prop} {call : Code → Prop}
    {P : Cpu D → Label → Cpu D → Prop} (hP : ∀ s l s', l = .exec ∨ l = .leave → P s l s') (n : ℕ)
    (s : Cpu D) : Run B handler call P s (B.next^[n] s) := by
  induction n generalizing s with
  | zero => exact .refl
  | succ n ih =>
    rw [Function.iterate_succ_apply]
    refine Relation.ReflTransGen.trans ?_ (ih (B.next s))
    obtain ⟨d, f, c, st⟩ := s
    have hone {l : Label} {s' : Cpu D} (hl : l = .exec ∨ l = .leave)
        (h : Step B handler call ⟨d, f, c, st⟩ l s') : Run B handler call P ⟨d, f, c, st⟩ s' :=
      .single ⟨l, h, hP _ _ _ hl⟩
    cases c with
    | outb v p k => exact hone (Or.inl rfl) (.outb d f v p k st)
    | inb p k => exact hone (Or.inl rfl) (.inb d f p k st)
    | cli k => exact hone (Or.inl rfl) (.cli d f k st)
    | sti k => exact hone (Or.inl rfl) (.sti d f k st)
    | iret =>
      cases st with
      | nil => exact .refl
      | cons c st => exact hone (Or.inl rfl) (.iret d f c st)
    | leave =>
      cases st with
      | nil => exact hone (Or.inr rfl) (.leave d f)
      | cons c st => exact .refl
    | user | spin => exact .refl

namespace Observer

variable {B : Board D V} {O : Observer B W} {E H : W → Prop} {s s' : Cpu D}
  {handler : V → Code → Prop} {call : Code → Prop} {P : Cpu D → Label → Cpu D → Prop}

theorem Holds.run (hr : O.Restores handler H) (h : O.Holds E H s)
    (habandon : ∀ s s', P s .abandon s' → H (O.view true s'.dev) → E (O.view true s'.dev))
    (hcall : ∀ s c s', P s .call s' → call c → O.Good true (O.view true s.dev) →
      E (O.view true s.dev) → O.Ends (fun _ => False) E c true (O.view true s.dev))
    (hs : Run B handler call P s s') : O.Holds E H s' := by
  induction hs with
  | refl => exact h
  | tail _ hstep ih =>
    obtain ⟨l, hstep, hP⟩ := hstep
    refine ih.step hr hstep ?_ ?_
    · rintro rfl
      exact habandon _ _ hP
    · rintro rfl hgood hend
      cases hstep with
      | @call c d f hc =>
        obtain ⟨hflag, -, -⟩ := ih.user rfl rfl
        obtain rfl : f = true := hflag
        exact hcall ⟨d, true, .user, []⟩ c _ hP hc hgood hend

end Observer
end KudOS.Interrupts
