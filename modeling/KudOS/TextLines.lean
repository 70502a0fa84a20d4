import Mathlib.Data.List.Basic

/-!
# Lines of a text

A text is made of complete lines, which end in the separator `z`, and of what stands behind
the last separator. The lines are the pieces of `List.splitOn z`. When a text is cut in two,
the last line of the first part and the first line of the second part belong together.
-/

namespace KudOS.TextLines

variable {α β : Type*}

def joinLines (z : α) (ps : List (List α)) : List α := ps.flatMap fun p => p ++ [z]

/-- The complete lines `ps`, and `u` behind them. -/
structure IsText (z : α) (l : List α) (ps : List (List α)) (u : List α) : Prop where
  joined : l = joinLines z ps ++ u
  complete : ∀ p ∈ ps, z ∉ p
  unfinished : z ∉ u

variable {z : α} {l a b u p : List α} {ps qs : List (List α)} {n : ℕ}

theorem joinLines_cons (z : α) (p : List α) (ps : List (List α)) :
    joinLines z (p :: ps) = p ++ z :: joinLines z ps := by
  simp [joinLines]

theorem length_le_length_joinLines (z : α) (ps : List (List α)) :
    ps.length ≤ (joinLines z ps).length := by
  induction ps with
  | nil => exact Nat.zero_le _
  | cons p ps ih =>
    rw [joinLines_cons, List.length_append, List.length_cons, List.length_cons]
    omega

theorem joinLines_eq_nil_iff : joinLines z ps = [] ↔ ps = [] := by
  cases ps with
  | nil => simp [joinLines]
  | cons p ps => simp [joinLines_cons]

variable [DecidableEq α]

theorem exists_isText (z : α) (l : List α) : ∃ ps u, IsText z l ps u := by
  induction l with
  | nil => exact ⟨[], [], rfl, by simp, by simp⟩
  | cons c l ih =>
    obtain ⟨ps, u, hl, hps, hu⟩ := ih
    by_cases hc : c = z
    · refine ⟨[] :: ps, u, ?_, ?_, hu⟩
      · rw [joinLines_cons, hl, hc]
        rfl
      · intro p hp
        rcases List.mem_cons.mp hp with rfl | hp
        · exact List.not_mem_nil
        · exact hps p hp
    · have hzc : z ≠ c := fun h => hc h.symm
      cases ps with
      | nil => exact ⟨[], c :: u, by rw [hl]; rfl, by simp, by simp [hzc, hu]⟩
      | cons p ps =>
        refine ⟨(c :: p) :: ps, u, ?_, ?_, hu⟩
        · rw [hl, joinLines_cons, joinLines_cons]
          rfl
        · intro q hq
          rcases List.mem_cons.mp hq with rfl | hq
          · simp [hzc, hps p List.mem_cons_self]
          · exact hps q (List.mem_cons_of_mem p hq)

/-! ## The pieces of a text -/

def firstLine (z : α) (l : List α) : List α := (l.splitOn z).headD []

def lastLine (z : α) (l : List α) : List α := (l.splitOn z).getLastD []

theorem splitOn_joinLines_append (hps : ∀ p ∈ ps, z ∉ p) (l : List α) :
    (joinLines z ps ++ l).splitOn z = ps ++ l.splitOn z := by
  induction ps with
  | nil => rfl
  | cons p ps ih =>
    rw [joinLines_cons, List.append_assoc, List.cons_append,
      List.splitOn_append_cons_self_of_not_mem (hps p List.mem_cons_self),
      ih fun q hq => hps q (List.mem_cons_of_mem p hq)]
    rfl

theorem splitOn_eq_cons (z : α) (l : List α) :
    l.splitOn z = firstLine z l :: (l.splitOn z).tail := by
  cases h : l.splitOn z with
  | nil => exact absurd h (List.splitOn_ne_nil z l)
  | cons p ps => rw [firstLine, h, List.headD_cons, List.tail_cons]

/-- Without a separator, `u` is the beginning of a line. -/
theorem splitOn_append (hu : z ∉ u) (b : List α) :
    (u ++ b).splitOn z = (u ++ firstLine z b) :: (b.splitOn z).tail := by
  induction u with
  | nil => exact splitOn_eq_cons z b
  | cons c u ih =>
    have hc : (c == z) = false := beq_eq_false_iff_ne.mpr fun h => hu (by simp [h])
    rw [List.cons_append, List.splitOn_cons_eq_if_modifyHead, hc,
      ih fun h => hu (List.mem_cons_of_mem c h)]
    rfl

theorem IsText.splitOn_eq (h : IsText z l ps u) : l.splitOn z = ps ++ [u] := by
  rw [h.joined, splitOn_joinLines_append h.complete, List.splitOn_eq_singleton h.unfinished]

theorem IsText.lastLine_eq (h : IsText z l ps u) : lastLine z l = u := by
  rw [lastLine, h.splitOn_eq]
  simp

theorem IsText.splitOn_append_eq (h : IsText z a ps u) (b : List α) :
    (a ++ b).splitOn z = ps ++ (u ++ firstLine z b) :: (b.splitOn z).tail := by
  rw [h.joined, List.append_assoc, splitOn_joinLines_append h.complete,
    splitOn_append h.unfinished]

theorem lastLine_mem_splitOn (z : α) (l : List α) : lastLine z l ∈ l.splitOn z := by
  obtain ⟨ps, u, h⟩ := exists_isText z l
  rw [h.lastLine_eq, h.splitOn_eq]
  exact List.mem_append_right ps List.mem_cons_self

/-- In front of the last line a text ends in a separator. -/
theorem lastLine_eq_nil (h : a ++ lastLine z l = l) : lastLine z a = [] := by
  obtain ⟨ps, u, hl⟩ := exists_isText z l
  have ha : a = joinLines z ps := by
    rw [hl.lastLine_eq] at h
    exact List.append_cancel_right (h.trans hl.joined)
  have htext : IsText z a ps [] := ⟨by rw [ha, List.append_nil], hl.complete, List.not_mem_nil⟩
  exact htext.lastLine_eq

/-- The line at a cut is a line of the whole text. -/
theorem line_at_cut_mem (z : α) (a b : List α) :
    lastLine z a ++ firstLine z b ∈ (a ++ b).splitOn z := by
  obtain ⟨ps, u, h⟩ := exists_isText z a
  rw [h.lastLine_eq, h.splitOn_append_eq]
  exact List.mem_append_right ps List.mem_cons_self

/-- A part of a text has no longer lines. -/
theorem length_le_left (h : ∀ p ∈ (a ++ b).splitOn z, p.length ≤ n) :
    ∀ p ∈ a.splitOn z, p.length ≤ n := by
  obtain ⟨ps, u, ha⟩ := exists_isText z a
  rw [ha.splitOn_append_eq] at h
  rw [ha.splitOn_eq]
  intro p hp
  rcases List.mem_append.mp hp with hp | hp
  · exact h p (List.mem_append_left _ hp)
  · have hline := h _ (List.mem_append_right ps List.mem_cons_self)
    rw [List.mem_singleton.mp hp]
    rw [List.length_append] at hline
    omega

theorem length_le_right (h : ∀ p ∈ (a ++ b).splitOn z, p.length ≤ n) :
    ∀ p ∈ b.splitOn z, p.length ≤ n := by
  obtain ⟨ps, u, ha⟩ := exists_isText z a
  rw [ha.splitOn_append_eq] at h
  rw [splitOn_eq_cons]
  intro p hp
  rcases List.mem_cons.mp hp with rfl | hp
  · have hline := h _ (List.mem_append_right ps List.mem_cons_self)
    rw [List.length_append] at hline
    omega
  · exact h p (List.mem_append_right ps (List.mem_cons_of_mem _ hp))

/-- What is behind a cut decides where the last line begins. -/
theorem lastLine_append_ne_nil (hb : lastLine z b ≠ []) : lastLine z (a ++ b) ≠ [] := by
  obtain ⟨ps, u, ha⟩ := exists_isText z a
  obtain ⟨qs, v, hv⟩ := exists_isText z b
  rw [hv.lastLine_eq] at hb
  cases qs with
  | nil =>
    have hab : IsText z (a ++ b) ps (u ++ v) := by
      refine ⟨?_, ha.complete, ?_⟩
      · rw [ha.joined, hv.joined, List.append_assoc]
        rfl
      · exact fun hz => (List.mem_append.mp hz).elim ha.unfinished hv.unfinished
    rw [hab.lastLine_eq]
    exact List.append_ne_nil_of_right_ne_nil u hb
  | cons q qs =>
    have hab : IsText z (a ++ b) (ps ++ (u ++ q) :: qs) v := by
      refine ⟨?_, ?_, hv.unfinished⟩
      · rw [ha.joined, hv.joined, joinLines_cons, joinLines, joinLines, joinLines,
          List.flatMap_append, List.flatMap_cons]
        simp
      · intro p hp
        rcases List.mem_append.mp hp with hp | hp
        · exact ha.complete p hp
        rcases List.mem_cons.mp hp with rfl | hp
        · exact fun hz => (List.mem_append.mp hz).elim ha.unfinished
            (hv.complete q List.mem_cons_self)
        · exact hv.complete p (List.mem_cons_of_mem q hp)
    rw [hab.lastLine_eq]
    exact hb

/-! ## A text line by line -/

/-- `f` of every line, one after the other. -/
def mapLines (z : α) (f : List α → List β) (l : List α) : List β := (l.splitOn z).flatMap f

variable (f : List α → List β)

theorem mapLines_of_notMem (hl : z ∉ l) : mapLines z f l = f l := by
  rw [mapLines, List.splitOn_eq_singleton hl, List.flatMap_singleton]

theorem mapLines_cons (hp : z ∉ p) (l : List α) :
    mapLines z f (p ++ z :: l) = f p ++ mapLines z f l := by
  rw [mapLines, List.splitOn_append_cons_self_of_not_mem hp, List.flatMap_cons, mapLines]

/-- At a cut, `f` sees two parts of one line. -/
theorem mapLines_append (z : α) (a b : List α) :
    ∃ x y, mapLines z f a = x ++ f (lastLine z a) ∧ mapLines z f b = f (firstLine z b) ++ y ∧
      mapLines z f (a ++ b) = x ++ (f (lastLine z a ++ firstLine z b) ++ y) := by
  obtain ⟨ps, u, h⟩ := exists_isText z a
  refine ⟨ps.flatMap f, (b.splitOn z).tail.flatMap f, ?_, ?_, ?_⟩
  · rw [mapLines, h.splitOn_eq, h.lastLine_eq, List.flatMap_append, List.flatMap_singleton]
  · rw [mapLines, splitOn_eq_cons, List.flatMap_cons, List.tail_cons]
  · rw [mapLines, h.splitOn_append_eq, h.lastLine_eq, List.flatMap_append, List.flatMap_cons]

/-- A text that ends in a separator is cut between two lines. -/
theorem mapLines_append_of_ended (hf : f [] = []) (ha : lastLine z a = []) (b : List α) :
    mapLines z f (a ++ b) = mapLines z f a ++ mapLines z f b := by
  obtain ⟨x, y, hx, hy, hxy⟩ := mapLines_append f z a b
  rw [hxy, hx, hy, ha, hf, List.nil_append, List.append_nil]

variable {f}

theorem mapLines_eq_nil (h : ∀ p ∈ l.splitOn z, f p = []) : mapLines z f l = [] :=
  List.flatMap_eq_nil_iff.mpr h

theorem mapLines_congr {g : List α → List β} (h : ∀ p, f p = g p) :
    mapLines z f l = mapLines z g l := by
  rw [show f = g from funext h]

end KudOS.TextLines
