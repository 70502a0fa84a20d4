import Mathlib.Algebra.Order.Ring.Int
import Mathlib.Logic.Relation

/-!
# Programs that call a service

A program is seen at its calls: at each location it makes one and goes on at a location
that the reply selects, or it ends. The service answers from a state which others may
change between the calls. An invariant that says how many calls are left bounds all runs,
and shows that every run can be finished.
-/

namespace KudOS.Sessions

/-- What a program does at a location. `undefined` is an access outside of an array. -/
inductive Act (Loc Call Reply : Type*) where
  | exit (status : ℤ)
  | undefined
  | call (q : Call) (next : Reply → Loc)

/-- A program, the service, and what others may do to the state. -/
structure Session (Loc Call Reply State : Type*) where
  act : Loc → Act Loc Call Reply
  serves : State → Call → Reply → State → Prop
  interferes : State → State → Prop

/-- The trace holds the calls made so far with their replies. -/
structure Config (Loc Call Reply State : Type*) where
  loc : Loc
  state : State
  trace : List (Call × Reply)

variable {Loc Call Reply State : Type*} {P : Session Loc Call Reply State}
  {c c' c'' : Config Loc Call Reply State}

namespace Session

inductive Step (P : Session Loc Call Reply State) :
    Config Loc Call Reply State → Config Loc Call Reply State → Prop where
  | call {l s s' t q r next} (hact : P.act l = .call q next) (hserved : P.serves s q r s') :
    Step P ⟨l, s, t⟩ ⟨next r, s', t ++ [(q, r)]⟩
  | interference {s s'} (l t) (h : P.interferes s s') : Step P ⟨l, s, t⟩ ⟨l, s', t⟩

def Run (P : Session Loc Call Reply State) :
    Config Loc Call Reply State → Config Loc Call Reply State → Prop :=
  Relation.ReflTransGen P.Step

def alone (P : Session Loc Call Reply State) : Session Loc Call Reply State :=
  { P with interferes := fun _ _ => False }

structure Keeps (P : Session Loc Call Reply State) (I : Config Loc Call Reply State → Prop) :
    Prop where
  interference : ∀ {c s}, I c → P.interferes c.state s → I { c with state := s }
  call : ∀ {c q next r s}, I c → P.act c.loc = .call q next → P.serves c.state q r s →
    I ⟨next r, s, c.trace ++ [(q, r)]⟩

/-- An invariant that bounds the calls to go, of which each is served. -/
structure Finishes (P : Session Loc Call Reply State)
    (I : ℕ → Config Loc Call Reply State → Prop) : Prop where
  interference : ∀ {n c s}, I n c → P.interferes c.state s → I n { c with state := s }
  served : ∀ {n c q next}, I n c → P.act c.loc = .call q next → ∃ r s, P.serves c.state q r s
  call : ∀ {n c q next r s}, I n c → P.act c.loc = .call q next → P.serves c.state q r s →
    ∃ k < n, I k ⟨next r, s, c.trace ++ [(q, r)]⟩

theorem Keeps.run {I : Config Loc Call Reply State → Prop} (h : P.Keeps I) (hr : P.Run c c')
    (hc : I c) : I c' := by
  induction hr with
  | refl => exact hc
  | tail _ hstep ih =>
    cases hstep with
    | call hact hserved => exact h.call ih hact hserved
    | interference l t hi => exact h.interference ih hi

/-- Each call of a run uses up one of those that were left. -/
theorem Finishes.run {I : ℕ → Config Loc Call Reply State → Prop} (h : P.Finishes I) {n : ℕ}
    (hr : P.Run c c') (hc : I n c) :
    ∃ k, I k c' ∧ c'.trace.length + k ≤ c.trace.length + n := by
  induction hr with
  | refl => exact ⟨n, hc, le_rfl⟩
  | tail _ hstep ih =>
    obtain ⟨k, hk, hlen⟩ := ih
    cases hstep with
    | call hact hserved =>
      obtain ⟨j, hj, hnext⟩ := h.call hk hact hserved
      refine ⟨j, hnext, ?_⟩
      dsimp only at hlen ⊢
      rw [List.length_append, List.length_singleton]
      omega
    | interference l t hi => exact ⟨k, h.interference hk hi, hlen⟩

end Session
end KudOS.Sessions
