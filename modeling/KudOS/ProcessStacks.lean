import KudOS.LinkedLists
import KudOS.SystemCalls
import Mathlib.Order.Interval.Finset.Nat

/-!
# The process table as one stack of processes per terminal

What the bookkeeping of `pcb.c` is for: every terminal has a stack of processes, of
which the top one runs and the others wait in `execute`. `Stacked c σ` says that the
program and parent numbers, the terminal records and the process count of a table
describe the stacks `σ`. Starting a process pushes a free slot, ending one pops it.
-/

namespace KudOS

/-- The part of the state that keeps track of processes. -/
@[ext]
structure ProcTable where
  programId : ℕ → ℕ
  parentId : ℕ → ℕ
  terminalInfo : TerminalId → TerminalInfo
  processNumber : ℕ

def Kernel.procTable (s : Kernel) : ProcTable where
  programId i := (s.pcbs i).programId
  parentId i := (s.pcbs i).parentId
  terminalInfo := s.terminalInfo
  processNumber := s.processNumber

namespace ProcTable

/-- The slots that hold a process. -/
def liveSlots (c : ProcTable) : Finset ℕ := (Finset.Icc 1 6).filter fun i => c.programId i ≠ 0

theorem mem_liveSlots {c : ProcTable} {i : ℕ} :
    i ∈ c.liveSlots ↔ (1 ≤ i ∧ i ≤ 6) ∧ c.programId i ≠ 0 := by
  rw [liveSlots, Finset.mem_filter, Finset.mem_Icc]

/-- Slot `i` becomes the process on top of terminal `t`. -/
def push (c : ProcTable) (t : TerminalId) (i : ℕ) : ProcTable where
  programId := Function.update c.programId i i
  parentId := Function.update c.parentId i (c.terminalInfo t).topProcessId
  terminalInfo := Function.update c.terminalInfo t ⟨i, inc32 (c.terminalInfo t).numProcess⟩
  processNumber := inc32 c.processNumber

/-- The process in slot `i` leaves terminal `t` to its parent. -/
def pop (c : ProcTable) (t : TerminalId) (i : ℕ) : ProcTable where
  programId := Function.update c.programId i 0
  parentId := Function.update c.parentId i 0
  terminalInfo := Function.update c.terminalInfo t ⟨c.parentId i, dec32 (c.terminalInfo t).numProcess⟩
  processNumber := dec32 c.processNumber

theorem liveSlots_push {c : ProcTable} (t : TerminalId) {i : ℕ} (h1 : 1 ≤ i) (h6 : i ≤ 6) :
    (c.push t i).liveSlots = insert i c.liveSlots := by
  ext j
  rw [Finset.mem_insert, mem_liveSlots, mem_liveSlots]
  by_cases hji : j = i
  · subst hji
    simp only [push, Function.update_self, true_or, iff_true]
    omega
  · simp [push, hji]

theorem liveSlots_pop {c : ProcTable} (t : TerminalId) (i : ℕ) :
    (c.pop t i).liveSlots = c.liveSlots.erase i := by
  ext j
  rw [Finset.mem_erase, mem_liveSlots, mem_liveSlots]
  by_cases hji : j = i
  · simp [pop, hji]
  · simp [pop, hji]

end ProcTable

/-- The table describes the stacks `σ`, the top of a stack being its first element. -/
structure Stacked (c : ProcTable) (σ : TerminalId → List ℕ) : Prop where
  slot_of_mem : ∀ t, ∀ i ∈ σ t, 1 ≤ i ∧ i ≤ 6 ∧ c.programId i = i
  free_of_not_mem : ∀ i, i ≤ 6 → (∀ t, i ∉ σ t) → c.programId i = 0 ∧ c.parentId i = 0
  visits : ∀ t, Visits 0 c.parentId (c.terminalInfo t).topProcessId (σ t)
  length_eq : ∀ t, (c.terminalInfo t).numProcess = (σ t).length
  nodup : ∀ t, (σ t).Nodup
  disjoint : ∀ t u i, i ∈ σ t → i ∈ σ u → t = u
  count : c.processNumber = c.liveSlots.card

namespace Stacked

variable {c : ProcTable} {σ : TerminalId → List ℕ} {t : TerminalId} {i : ℕ} {l : List ℕ}

theorem mem_of_programId (h : Stacked c σ) (hi : i ≤ 6) (hp : c.programId i ≠ 0) : ∃ t, i ∈ σ t := by
  by_contra hno
  exact hp (h.free_of_not_mem i hi (fun t ht => hno ⟨t, ht⟩)).1

theorem programId_zero_or (h : Stacked c σ) (hi : i ≤ 6) : c.programId i = 0 ∨ c.programId i = i := by
  by_cases hp : c.programId i = 0
  · exact Or.inl hp
  · obtain ⟨t, ht⟩ := h.mem_of_programId hi hp
    exact Or.inr (h.slot_of_mem t i ht).2.2

theorem not_mem_of_free (h : Stacked c σ) (hp : c.programId i = 0) (u : TerminalId) : i ∉ σ u := by
  intro hmem
  have := h.slot_of_mem u i hmem
  omega

theorem length_le (h : Stacked c σ) (t : TerminalId) : (σ t).length ≤ 6 := by
  have hsub : (σ t).toFinset ⊆ Finset.Icc 1 6 := by
    intro j hj
    have := h.slot_of_mem t j (List.mem_toFinset.mp hj)
    exact Finset.mem_Icc.mpr ⟨this.1, this.2.1⟩
  have hcard := Finset.card_le_card hsub
  rwa [List.toFinset_card_of_nodup (h.nodup t), Nat.card_Icc] at hcard

theorem processNumber_le (h : Stacked c σ) : c.processNumber ≤ 6 := by
  rw [h.count]
  exact (Finset.card_filter_le _ _).trans (by rw [Nat.card_Icc])

theorem exists_free (h : Stacked c σ) (hn : c.processNumber < 6) :
    ∃ i, 1 ≤ i ∧ i ≤ 6 ∧ c.programId i = 0 := by
  by_contra hno
  have hall : c.liveSlots = Finset.Icc 1 6 := by
    refine Finset.filter_true_of_mem fun i hi => ?_
    rw [Finset.mem_Icc] at hi
    exact fun h0 => hno ⟨i, hi.1, hi.2, h0⟩
  rw [h.count, hall, Nat.card_Icc] at hn
  omega

theorem top_eq (h : Stacked c σ) (t : TerminalId) :
    (c.terminalInfo t).topProcessId = (σ t).headD 0 :=
  (h.visits t).head_eq

/-- The top process number is 0 or the number of its own slot. -/
theorem programId_top (h : Stacked c σ) (t : TerminalId) :
    c.programId (c.terminalInfo t).topProcessId = (c.terminalInfo t).topProcessId := by
  rw [h.top_eq t]
  cases hl : σ t with
  | nil =>
    refine (h.free_of_not_mem 0 (by omega) fun u hu => ?_).1
    have := h.slot_of_mem u 0 hu
    omega
  | cons i l => exact (h.slot_of_mem t i (by simp [hl])).2.2

theorem top_le (h : Stacked c σ) (t : TerminalId) : (c.terminalInfo t).topProcessId ≤ 6 := by
  rw [h.top_eq t]
  cases hl : σ t with
  | nil => simp
  | cons i l => exact (h.slot_of_mem t i (by simp [hl])).2.1

/-! ### Pushing -/

theorem mem_push {u : TerminalId} {j : ℕ} :
    j ∈ Function.update σ t (i :: σ t) u ↔ j ∈ σ u ∨ (u = t ∧ j = i) := by
  by_cases hu : u = t
  · subst hu
    simp [or_comm]
  · simp [hu]

/-- The old stacks are visited as before, since their slots keep their parents. -/
theorem visits_push (h : Stacked c σ) (h1 : 1 ≤ i) (hfree : c.programId i = 0) (u : TerminalId) :
    Visits 0 (c.push t i).parentId ((c.push t i).terminalInfo u).topProcessId
      (Function.update σ t (i :: σ t) u) := by
  have hold : ∀ u, Visits 0 (c.push t i).parentId (c.terminalInfo u).topProcessId (σ u) := by
    intro u
    refine (h.visits u).congr fun j hj => ?_
    have hji : j ≠ i := fun hji => h.not_mem_of_free hfree u (hji ▸ hj)
    simp [ProcTable.push, hji]
  by_cases hu : u = t
  · subst hu
    have hpar : (c.push u i).parentId i = (c.terminalInfo u).topProcessId := by
      simp [ProcTable.push]
    have hv : Visits 0 (c.push u i).parentId i (i :: σ u) := .step (by omega) (hpar ▸ hold u)
    simpa [ProcTable.push] using hv
  · have hv := hold u
    simpa [ProcTable.push, hu] using hv

theorem count_push (h : Stacked c σ) (t : TerminalId) (h1 : 1 ≤ i) (h6 : i ≤ 6)
    (hfree : c.programId i = 0) : (c.push t i).processNumber = (c.push t i).liveSlots.card := by
  have hni : i ∉ c.liveSlots := by simp [ProcTable.mem_liveSlots, hfree]
  have hle := h.processNumber_le
  rw [ProcTable.liveSlots_push t h1 h6, Finset.card_insert_of_notMem hni, ← h.count]
  exact inc32_of_lt (by omega)

theorem push (h : Stacked c σ) (t : TerminalId) (h1 : 1 ≤ i) (h6 : i ≤ 6)
    (hfree : c.programId i = 0) :
    Stacked (c.push t i) (Function.update σ t (i :: σ t)) := by
  have hnot := h.not_mem_of_free hfree
  refine ⟨?_, ?_, h.visits_push h1 hfree, ?_, ?_, ?_, h.count_push t h1 h6 hfree⟩
  · intro u j hj
    rcases mem_push.mp hj with hj | ⟨_, rfl⟩
    · have hs := h.slot_of_mem u j hj
      have hji : j ≠ i := fun hji => hnot u (hji ▸ hj)
      refine ⟨hs.1, hs.2.1, ?_⟩
      simp [ProcTable.push, hji, hs.2.2]
    · exact ⟨h1, h6, by simp [ProcTable.push]⟩
  · intro j hj hno
    have hji : j ≠ i := fun hji => hno t (mem_push.mpr (Or.inr ⟨rfl, hji⟩))
    have hfree' := h.free_of_not_mem j hj fun u hu => hno u (mem_push.mpr (Or.inl hu))
    simpa [ProcTable.push, hji] using hfree'
  · intro u
    by_cases hu : u = t
    · subst hu
      have hlen := h.length_le u
      simp [ProcTable.push, h.length_eq u]
      exact inc32_of_lt (by omega)
    · simp [ProcTable.push, hu, h.length_eq u]
  · intro u
    by_cases hu : u = t
    · subst hu
      simpa using ⟨hnot u, h.nodup u⟩
    · simpa [hu] using h.nodup u
  · intro u w j hj hj'
    rcases mem_push.mp hj with ha | ⟨hut, hji⟩ <;> rcases mem_push.mp hj' with hb | ⟨hwt, hji'⟩
    · exact h.disjoint u w j ha hb
    · exact absurd ha (hji' ▸ hnot u)
    · exact absurd hb (hji ▸ hnot w)
    · rw [hut, hwt]

/-! ### Popping -/

section Pop

variable (h : Stacked c σ) (hσ : σ t = i :: l)
include h hσ

theorem nodup_cons : i ∉ l ∧ l.Nodup := by
  have hnodup := h.nodup t
  rw [hσ] at hnodup
  exact List.nodup_cons.mp hnodup

theorem mem_pop {u : TerminalId} {j : ℕ} :
    j ∈ Function.update σ t l u ↔ j ∈ σ u ∧ j ≠ i := by
  have hi : i ∈ σ t := by simp [hσ]
  have hnil := (h.nodup_cons hσ).1
  by_cases hu : u = t
  · subst hu
    simp only [Function.update_self, hσ, List.mem_cons]
    constructor
    · exact fun hj => ⟨Or.inr hj, fun hji => hnil (hji ▸ hj)⟩
    · exact fun ⟨hj, hji⟩ => hj.resolve_left hji
  · rw [Function.update_of_ne hu]
    exact ⟨fun hj => ⟨hj, fun hji => hu (h.disjoint u t i (hji ▸ hj) hi)⟩, fun hj => hj.1⟩

theorem visits_pop (u : TerminalId) :
    Visits 0 (c.pop t i).parentId ((c.pop t i).terminalInfo u).topProcessId
      (Function.update σ t l u) := by
  have hpar : ∀ j ∈ Function.update σ t l u, c.parentId j = (c.pop t i).parentId j := by
    intro j hj
    have hji := ((h.mem_pop hσ).mp hj).2
    simp [ProcTable.pop, hji]
  by_cases hu : u = t
  · subst hu
    have hv := h.visits u
    rw [hσ] at hv
    rw [Function.update_self] at hpar ⊢
    have hv' := hv.tail.2.congr hpar
    simpa [ProcTable.pop] using hv'
  · rw [Function.update_of_ne hu] at hpar ⊢
    have hv := (h.visits u).congr hpar
    simpa [ProcTable.pop, hu] using hv

theorem count_pop : (c.pop t i).processNumber = (c.pop t i).liveSlots.card := by
  have hslot := h.slot_of_mem t i (by simp [hσ])
  have hmemi : i ∈ c.liveSlots := by
    rw [ProcTable.mem_liveSlots, hslot.2.2]
    omega
  have hpos := Finset.card_pos.mpr ⟨i, hmemi⟩
  have hle := h.processNumber_le
  rw [ProcTable.liveSlots_pop t i, Finset.card_erase_of_mem hmemi, ← h.count]
  rw [← h.count] at hpos
  exact dec32_of_pos hpos (by omega)

theorem pop : Stacked (c.pop t i) (Function.update σ t l) := by
  refine ⟨?_, ?_, h.visits_pop hσ, ?_, ?_, ?_, h.count_pop hσ⟩
  · intro u j hj
    have hj' := (h.mem_pop hσ).mp hj
    have hs := h.slot_of_mem u j hj'.1
    refine ⟨hs.1, hs.2.1, ?_⟩
    simp [ProcTable.pop, hj'.2, hs.2.2]
  · intro j hj hno
    by_cases hji : j = i
    · subst hji
      simp [ProcTable.pop]
    · have hfree := h.free_of_not_mem j hj fun u hu => hno u ((h.mem_pop hσ).mpr ⟨hu, hji⟩)
      simpa [ProcTable.pop, hji] using hfree
  · intro u
    by_cases hu : u = t
    · subst hu
      have hlen := h.length_le u
      have hnum := h.length_eq u
      rw [hσ, List.length_cons] at hnum hlen
      simp only [ProcTable.pop, Function.update_self]
      rw [dec32_of_pos (by omega) (by omega)]
      omega
    · simp [ProcTable.pop, hu, h.length_eq u]
  · intro u
    by_cases hu : u = t
    · subst hu
      simpa using (h.nodup_cons hσ).2
    · simpa [hu] using h.nodup u
  · intro u w j hj hj'
    exact h.disjoint u w j ((h.mem_pop hσ).mp hj).1 ((h.mem_pop hσ).mp hj').1

end Pop

end Stacked

/-- A process that is taken back leaves the table as it was. -/
theorem ProcTable.pop_push {c : ProcTable} {σ : TerminalId → List ℕ} (h : Stacked c σ)
    (t : TerminalId) {i : ℕ} (h6 : i ≤ 6) (hfree : c.programId i = 0) :
    (c.push t i).pop t i = c := by
  have hpar := (h.free_of_not_mem i h6 (h.not_mem_of_free hfree)).2
  have hlen := h.length_le t
  have hnum := h.length_eq t
  have hle := h.processNumber_le
  ext1
  · funext j
    by_cases hji : j = i
    · simp [ProcTable.pop, hji, hfree]
    · simp [ProcTable.pop, ProcTable.push, hji]
  · funext j
    by_cases hji : j = i
    · simp [ProcTable.pop, hji, hpar]
    · simp [ProcTable.pop, ProcTable.push, hji]
  · funext u
    by_cases hu : u = t
    · subst hu
      simp only [ProcTable.pop, ProcTable.push, Function.update_self]
      rw [dec32_inc32 (by omega)]
    · simp [ProcTable.pop, ProcTable.push, hu]
  · exact dec32_inc32 (by omega)

end KudOS
