import KudOS.ListPositions
import KudOS.SystemCalls

/-!
# The handshake of rtc_read and rtc_handler

`rtc_read` statement by statement, with the handler as an atomic step that may come
between any two statements. A run is the list of its steps from `rtc_init` on.
-/

namespace KudOS

/-- The two flags as `rtc_init` leaves them. -/
def Rtc.rtcInit (r : Rtc) : Rtc := { r with rtcSyncFlag := false, rtcReadFlag := false }

def Rtc.rtcHandler (r : Rtc) : Rtc := if r.rtcReadFlag then { r with rtcSyncFlag := true } else r

namespace RtcHandshake

/-- The statement that the reader executes next; `idle` is outside of `rtc_read`. -/
inductive Statement where
  | idle
  | setRead
  | loop
  | clearSync
  | clearRead
  | leave
  deriving DecidableEq, Repr

/-- The steps: a call, the statements of the reader, the handler. -/
inductive Event where
  | call
  | setRead
  | test
  | clearSync
  | clearRead
  | leave
  | handler
  deriving DecidableEq, Repr

structure State where
  rtc : Rtc
  pc : Statement

/-- One step, or `none` if the reader is at another statement. -/
def step (s : State) : Event → Option State
  | .handler => some { s with rtc := s.rtc.rtcHandler }
  | .call => if s.pc = .idle then some { s with pc := .setRead } else none
  | .setRead =>
    if s.pc = .setRead then some ⟨{ s.rtc with rtcReadFlag := true }, .loop⟩ else none
  | .test =>
    if s.pc = .loop then some { s with pc := if s.rtc.rtcSyncFlag then .clearSync else .loop }
    else none
  | .clearSync =>
    if s.pc = .clearSync then some ⟨{ s.rtc with rtcSyncFlag := false }, .clearRead⟩ else none
  | .clearRead =>
    if s.pc = .clearRead then some ⟨{ s.rtc with rtcReadFlag := false }, .leave⟩ else none
  | .leave => if s.pc = .leave then some { s with pc := .idle } else none

def initial : State := ⟨Rtc.rtcInit ⟨false, false, 0⟩, .idle⟩

def run (l : List Event) : Option State := l.foldlM step initial

/-- The steps since the last call, the latest first. -/
def sinceCall (l : List Event) : List Event := l.reverse.takeWhile fun e => e ≠ .call

/-- Each `rtc_read` that returns has seen a handler step since it was called. -/
def FreshReads (l : List Event) : Prop :=
  EachNext (fun p e => e = .leave → .handler ∈ sinceCall p) l

/-- No handler step comes between the two stores that clear the flags. -/
def StoresTogether (l : List Event) : Prop :=
  EachNext (fun p e => e = .handler → (run p).map State.pc ≠ some .clearRead) l

instance (l : List Event) : Decidable (FreshReads l) :=
  inferInstanceAs (Decidable (EachNext _ l))

instance (l : List Event) : Decidable (StoresTogether l) :=
  inferInstanceAs (Decidable (EachNext _ l))

variable {l : List Event} {e : Event} {s s' : State}

theorem run_concat (l : List Event) (e : Event) :
    run (l ++ [e]) = (run l).bind fun s => step s e := by
  rw [run, run, List.foldlM_append]
  simp only [List.foldlM_cons, List.foldlM_nil, bind_pure]
  rfl

theorem sinceCall_concat (l : List Event) (e : Event) :
    sinceCall (l ++ [e]) = if e = .call then [] else e :: sinceCall l := by
  rw [sinceCall, List.reverse_concat, List.takeWhile_cons]
  by_cases h : e = .call
  · rw [if_pos h, if_neg (by simp [h])]
  · rw [if_neg h, if_pos (by simp [h])]
    rfl

theorem mem_sinceCall (he : e ≠ .call) (h : Event.handler ∈ sinceCall l) :
    Event.handler ∈ sinceCall (l ++ [e]) := by
  rw [sinceCall_concat, if_neg he]
  exact List.mem_cons_of_mem e h

/-- What the reader may rely on at each statement, if the two stores come together. -/
def Inv (l : List Event) (s : State) : Prop :=
  match s.pc with
  | .idle | .setRead => s.rtc.rtcSyncFlag = false ∧ s.rtc.rtcReadFlag = false
  | .loop => s.rtc.rtcSyncFlag = true → .handler ∈ sinceCall l
  | .clearSync => .handler ∈ sinceCall l
  | .clearRead => s.rtc.rtcSyncFlag = false ∧ .handler ∈ sinceCall l
  | .leave => (s.rtc.rtcSyncFlag = false ∧ s.rtc.rtcReadFlag = false) ∧ .handler ∈ sinceCall l

theorem rtcHandler_of_idle {r : Rtc} (h : r.rtcReadFlag = false) : r.rtcHandler = r := by
  rw [Rtc.rtcHandler, h]
  rfl

/-- A handler step away from the second store. -/
theorem Inv.handler (h : Inv l s) (hpc : s.pc ≠ .clearRead) :
    Inv (l ++ [.handler]) { s with rtc := s.rtc.rtcHandler } := by
  have hnew : Event.handler ∈ sinceCall (l ++ [.handler]) := by
    rw [sinceCall_concat, if_neg (by decide)]
    exact List.mem_cons_self
  obtain ⟨r, pc⟩ := s
  cases pc with
  | idle | setRead =>
    have hread : r.rtcReadFlag = false := h.2
    change r.rtcHandler.rtcSyncFlag = false ∧ r.rtcHandler.rtcReadFlag = false
    rw [rtcHandler_of_idle hread]
    exact h
  | loop => exact fun _ => hnew
  | clearSync => exact hnew
  | clearRead => exact absurd rfl hpc
  | leave =>
    have hread : r.rtcReadFlag = false := h.1.2
    refine ⟨?_, hnew⟩
    change r.rtcHandler.rtcSyncFlag = false ∧ r.rtcHandler.rtcReadFlag = false
    rw [rtcHandler_of_idle hread]
    exact h.1

theorem Inv.step (h : Inv l s) (hx : step s e = some s')
    (hpc : e = .handler → s.pc ≠ .clearRead) : Inv (l ++ [e]) s' := by
  obtain ⟨r, pc⟩ := s
  cases e with
  | handler =>
    cases hx
    exact h.handler (hpc rfl)
  | call =>
    obtain ⟨rfl, hs⟩ := Option.ite_none_right_eq_some.mp hx
    cases hs
    exact h
  | setRead =>
    obtain ⟨rfl, hs⟩ := Option.ite_none_right_eq_some.mp hx
    cases hs
    intro hsync
    have hclear : r.rtcSyncFlag = false := h.1
    rw [hclear] at hsync
    cases hsync
  | test =>
    obtain ⟨rfl, hs⟩ := Option.ite_none_right_eq_some.mp hx
    cases hs
    cases hsync : r.rtcSyncFlag with
    | false =>
      intro hset
      rw [hsync] at hset
      cases hset
    | true => exact mem_sinceCall (by decide) (h hsync)
  | clearSync =>
    obtain ⟨rfl, hs⟩ := Option.ite_none_right_eq_some.mp hx
    cases hs
    exact ⟨rfl, mem_sinceCall (by decide) h⟩
  | clearRead =>
    obtain ⟨rfl, hs⟩ := Option.ite_none_right_eq_some.mp hx
    cases hs
    exact ⟨⟨h.1, rfl⟩, mem_sinceCall (by decide) h.2⟩
  | leave =>
    obtain ⟨rfl, hs⟩ := Option.ite_none_right_eq_some.mp hx
    cases hs
    exact h.1

/-- The invariant holds along every run in which the two stores come together. -/
theorem inv_of_storesTogether (hl : StoresTogether l) (hs : run l = some s) : Inv l s := by
  induction l using List.reverseRecOn generalizing s with
  | nil =>
    cases hs
    exact ⟨rfl, rfl⟩
  | append_singleton l e ih =>
    obtain ⟨hl, he⟩ := eachNext_concat.mp hl
    rw [run_concat] at hs
    obtain ⟨u, hu, hstep⟩ := Option.bind_eq_some_iff.mp hs
    refine (ih hl hu).step hstep fun hhandler hpc => he hhandler ?_
    rw [hu, Option.map_some, hpc]

/-- In every run in which no handler step comes between the two stores, every
`rtc_read` waits for a handler step of its own. -/
theorem reads_fresh (hrun : (run l).isSome) (hl : StoresTogether l) : FreshReads l := by
  induction l using List.reverseRecOn with
  | nil => exact eachNext_nil
  | append_singleton l e ih =>
    have hpre := (eachNext_concat.mp hl).1
    rw [run_concat] at hrun
    obtain ⟨s', hs'⟩ := Option.isSome_iff_exists.mp hrun
    obtain ⟨s, hs, hstep⟩ := Option.bind_eq_some_iff.mp hs'
    refine eachNext_concat.mpr ⟨ih (by rw [hs]; rfl) hpre, ?_⟩
    rintro rfl
    have hinv := inv_of_storesTogether hpre hs
    obtain ⟨hpc, -⟩ := Option.ite_none_right_eq_some.mp hstep
    rw [Inv, hpc] at hinv
    exact hinv.2

/-- Two reads with a tick each. -/
theorem two_ticks_fresh : FreshReads [.call, .setRead, .test, .handler, .test, .clearSync,
    .clearRead, .leave, .call, .handler, .setRead, .handler, .test, .clearSync, .clearRead,
    .leave] :=
  reads_fresh (by decide) (by decide +kernel)

/-- A tick between the two stores is still there when the next read begins. -/
theorem stale_read : (run [.call, .setRead, .handler, .test, .clearSync, .handler, .clearRead,
      .leave, .call, .setRead, .test, .clearSync, .clearRead, .leave]).isSome ∧
    ¬ FreshReads [.call, .setRead, .handler, .test, .clearSync, .handler, .clearRead,
      .leave, .call, .setRead, .test, .clearSync, .clearRead, .leave] := by
  decide +kernel

/-- The reader clears its flag last. -/
theorem readFlag_set (hs : run l = some s)
    (hpc : s.pc = .loop ∨ s.pc = .clearSync ∨ s.pc = .clearRead) : s.rtc.rtcReadFlag = true := by
  induction l using List.reverseRecOn generalizing s with
  | nil =>
    cases hs
    simp [initial] at hpc
  | append_singleton l e ih =>
    rw [run_concat] at hs
    obtain ⟨u, hu, hstep⟩ := Option.bind_eq_some_iff.mp hs
    cases e with
    | handler =>
      cases hstep
      have hread := ih hu hpc
      change u.rtc.rtcHandler.rtcReadFlag = true
      rw [Rtc.rtcHandler, if_pos hread]
      exact hread
    | setRead =>
      obtain ⟨-, hstep⟩ := Option.ite_none_right_eq_some.mp hstep
      cases hstep
      rfl
    | test =>
      obtain ⟨hat, hstep⟩ := Option.ite_none_right_eq_some.mp hstep
      cases hstep
      have hread := ih hu (Or.inl hat)
      exact hread
    | clearSync =>
      obtain ⟨hat, hstep⟩ := Option.ite_none_right_eq_some.mp hstep
      cases hstep
      have hread := ih hu (Or.inr (Or.inl hat))
      exact hread
    | call | clearRead | leave =>
      obtain ⟨-, hstep⟩ := Option.ite_none_right_eq_some.mp hstep
      cases hstep
      simp at hpc

/-- After any run, a tick between the two stores makes the next read return without
one: the condition cannot be weakened. -/
theorem stale_read_follows (hs : run l = some s) (hpc : s.pc = .clearRead) :
    (run (l ++ [.handler, .clearRead, .leave, .call, .setRead, .test, .clearSync, .clearRead,
      .leave])).isSome ∧
    ¬ FreshReads (l ++ [.handler, .clearRead, .leave, .call, .setRead, .test, .clearSync,
      .clearRead, .leave]) := by
  have hread := readFlag_set hs (Or.inr (Or.inr hpc))
  obtain ⟨r, pc⟩ := s
  cases hpc
  have hread : r.rtcReadFlag = true := hread
  constructor
  · rw [run] at hs ⊢
    rw [List.foldlM_append, hs]
    simp [step, Rtc.rtcHandler, hread]
  · intro hfresh
    have hlast := hfresh (l ++ [.handler, .clearRead, .leave, .call, .setRead, .test, .clearSync,
      .clearRead]) .leave (by simp) rfl
    simp [sinceCall] at hlast

/-- Behind such a run the flags are as after `rtcRead`, the read with its tick. -/
theorem idle_rtcRead (hl : StoresTogether l) (hs : run l = some s) (hpc : s.pc = .idle)
    (k : Kernel) : { k with rtc := s.rtc }.rtcRead = { k with rtc := s.rtc } := by
  have hinv := inv_of_storesTogether hl hs
  rw [Inv, hpc] at hinv
  obtain ⟨⟨sync, read, a⟩, pc⟩ := s
  obtain ⟨rfl, rfl⟩ : sync = false ∧ read = false := hinv
  rfl

end RtcHandshake
end KudOS
