import KudOS.CountedLoop
import Mathlib.Data.List.Basic

/-!
# Operations on the focused component of a state

A state holds one component for each index, of which one is active. A local
operation depends on the active component and on a shared part only, and changes
nothing but the active component. In a run of switches and of operations that are local
where they are performed, each component evolves as if it were alone.
-/

namespace KudOS

variable {σ ι V P : Type*}

/-- The components of a state, the active one, and what they share. -/
structure Focus (σ ι V P : Type*) where
  active : σ → ι
  view : σ → ι → V
  shared : σ → P

namespace Focus

variable (F : Focus σ ι V P)

/-- The active components are equal, and so are the shared parts. -/
def Agree (s s' : σ) : Prop :=
  F.shared s = F.shared s' ∧ F.view s (F.active s) = F.view s' (F.active s')

/-- At this state the operation reads and writes the active component only. -/
structure LocalAt (f : σ → σ) (s : σ) : Prop where
  active : F.active (f s) = F.active s
  shared : F.shared (f s) = F.shared s
  frame : ∀ i, i ≠ F.active s → F.view (f s) i = F.view s i
  agree : ∀ s', F.Agree s s' → F.active (f s') = F.active s' ∧ F.Agree (f s) (f s')

def Local (f : σ → σ) : Prop := ∀ s, F.LocalAt f s

variable {F} {f g : σ → σ} {s : σ}

/-! ### At one state -/

theorem LocalAt.id : F.LocalAt (fun s => s) s :=
  ⟨rfl, rfl, fun _ _ => rfl, fun _ h => ⟨rfl, h⟩⟩

theorem LocalAt.comp (hg : F.LocalAt g (f s)) (hf : F.LocalAt f s) :
    F.LocalAt (fun s => g (f s)) s where
  active := by rw [hg.active, hf.active]
  shared := by rw [hg.shared, hf.shared]
  frame i hi := by rw [hg.frame i (by rwa [hf.active]), hf.frame i hi]
  agree s' h := by
    obtain ⟨hactive, hagree⟩ := hf.agree s' h
    obtain ⟨hactive', hagree'⟩ := hg.agree (f s') hagree
    exact ⟨hactive'.trans hactive, hagree'⟩

/-- An operation may depend on whatever agreeing states have in common. -/
theorem LocalAt.dep {β : Type*} {o : σ → β} (ho : ∀ s', F.Agree s s' → o s = o s')
    {k : β → σ → σ} (hk : F.LocalAt (k (o s)) s) : F.LocalAt (fun s => k (o s) s) s where
  active := hk.active
  shared := hk.shared
  frame := hk.frame
  agree s' h := by
    rw [← ho s' h]
    exact hk.agree s' h

theorem LocalAt.ite {p : σ → Prop} [DecidablePred p] (hp : ∀ s', F.Agree s s' → (p s ↔ p s'))
    (hf : p s → F.LocalAt f s) (hg : ¬ p s → F.LocalAt g s) :
    F.LocalAt (fun s => if p s then f s else g s) s := by
  by_cases hs : p s
  · have hf' := hf hs
    refine ⟨?_, ?_, ?_, fun s' h => ?_⟩
    · rw [if_pos hs, hf'.active]
    · rw [if_pos hs, hf'.shared]
    · intro i hi
      rw [if_pos hs, hf'.frame i hi]
    · rw [if_pos hs, if_pos ((hp s' h).mp hs)]
      exact hf'.agree s' h
  · have hg' := hg hs
    refine ⟨?_, ?_, ?_, fun s' h => ?_⟩
    · rw [if_neg hs, hg'.active]
    · rw [if_neg hs, hg'.shared]
    · intro i hi
      rw [if_neg hs, hg'.frame i hi]
    · rw [if_neg hs, if_neg (mt (hp s' h).mpr hs)]
      exact hg'.agree s' h

/-! ### At every state -/

theorem Local.id : F.Local (fun s => s) := fun _ => LocalAt.id

theorem Local.comp (hg : F.Local g) (hf : F.Local f) : F.Local (fun s => g (f s)) :=
  fun s => (hg (f s)).comp (hf s)

theorem Local.dep {β : Type*} {o : σ → β} (ho : ∀ s s', F.Agree s s' → o s = o s')
    {k : β → σ → σ} (hk : ∀ b, F.Local (k b)) : F.Local (fun s => k (o s) s) :=
  fun s => LocalAt.dep (ho s) (hk (o s) s)

theorem Local.ite {p : σ → Prop} [DecidablePred p] (hp : ∀ s s', F.Agree s s' → (p s ↔ p s'))
    (hf : F.Local f) (hg : F.Local g) : F.Local (fun s => if p s then f s else g s) :=
  fun s => LocalAt.ite (hp s) (fun _ => hf s) (fun _ => hg s)

theorem Local.foldl {α : Type*} {k : σ → α → σ} (hk : ∀ a, F.Local (fun s => k s a))
    (l : List α) : F.Local (fun s => l.foldl k s) := by
  induction l with
  | nil => exact Local.id
  | cons a l ih => exact Local.comp ih (hk a)

theorem Local.forLoop {body : ℕ → σ → σ} (hb : ∀ i, F.Local (body i)) (n : ℕ) :
    F.Local (fun s => KudOS.forLoop n body s) := by
  induction n with
  | zero => exact Local.id
  | succ n ih => exact Local.comp (f := KudOS.forLoop n body) (hb n) ih

/-! ## Runs with switches -/

/-- A local operation, or a change of the active component. -/
inductive Event (σ ι : Type*) where
  | op (f : σ → σ)
  | switch (i : ι)

/-- A switch changes which component is active and no component. -/
structure Switches (F : Focus σ ι V P) (sw : σ → ι → σ) : Prop where
  active : ∀ s i, F.active (sw s i) = i
  shared : ∀ s i, F.shared (sw s i) = F.shared s
  view : ∀ s i j, F.view (sw s i) j = F.view s j

def Event.apply (sw : σ → ι → σ) (s : σ) : Event σ ι → σ
  | .op f => f s
  | .switch i => sw s i

/-- Every operation of the run is local at the state in which it is performed. -/
def LocalRun (F : Focus σ ι V P) (sw : σ → ι → σ) : σ → List (Event σ ι) → Prop
  | _, [] => True
  | s, .op f :: es => F.LocalAt f s ∧ LocalRun F sw (f s) es
  | s, .switch i :: es => LocalRun F sw (sw s i) es

theorem localRun_append {sw : σ → ι → σ} {s : σ} {es es' : List (Event σ ι)} :
    F.LocalRun sw s (es ++ es') ↔
      F.LocalRun sw s es ∧ F.LocalRun sw (es.foldl (Event.apply sw) s) es' := by
  induction es generalizing s with
  | nil => exact (and_iff_right trivial).symm
  | cons e es ih =>
    cases e with
    | op f =>
      change F.LocalAt f s ∧ F.LocalRun sw (f s) (es ++ es') ↔
        (F.LocalAt f s ∧ F.LocalRun sw (f s) es) ∧ _
      rw [ih, and_assoc]
      rfl
    | switch i => exact ih

variable [DecidableEq ι]

/-- The operations of a run that were performed while component `i` was active, if
component `a` is active at its start. -/
def own (i : ι) : ι → List (Event σ ι) → List (σ → σ)
  | _, [] => []
  | a, .op f :: es => if a = i then f :: own i a es else own i a es
  | _, .switch j :: es => own i j es

/-- Each component ends as if only its own operations had been run, on a state in
which it is active throughout. -/
theorem view_run {sw : σ → ι → σ} (hsw : F.Switches sw) {es : List (Event σ ι)} {s s' : σ}
    (hes : F.LocalRun sw s es) (i : ι) (hact : F.active s' = i)
    (hshared : F.shared s' = F.shared s) (hview : F.view s' i = F.view s i) :
    F.view (es.foldl (Event.apply sw) s) i =
      F.view ((own i (F.active s) es).foldl (fun s f => f s) s') i := by
  induction es generalizing s s' with
  | nil => exact hview.symm
  | cons e es ih =>
    cases e with
    | op f =>
      obtain ⟨hf, hrest⟩ := hes
      have hactive : F.active (f s) = F.active s := hf.active
      by_cases ha : F.active s = i
      · obtain ⟨hact', hshared', hview'⟩ := hf.agree s' ⟨hshared.symm, by rw [ha, hact, hview]⟩
        simp only [List.foldl_cons, Event.apply, own, ha, if_true]
        have hend := ih hrest (hact'.trans hact) hshared'.symm
          (by rw [hactive, ha, hact', hact] at hview'; exact hview'.symm)
        rwa [hactive, ha] at hend
      · simp only [List.foldl_cons, Event.apply, own, ha, if_false]
        have hend := ih hrest hact (by rw [hf.shared, hshared])
          (by rw [hf.frame i (fun h => ha h.symm), hview])
        rwa [hactive] at hend
    | switch j =>
      simp only [List.foldl_cons, Event.apply, own]
      have hend := ih hes hact (by rw [hsw.shared, hshared]) (by rw [hsw.view, hview])
      rwa [hsw.active] at hend

end Focus
end KudOS
