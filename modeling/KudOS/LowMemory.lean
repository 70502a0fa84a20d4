import KudOS.AddressSpaces

/-!
# The low 4 MB

The comment in `paging_init` says that the table of the low 4 MB has all pages absent
except the video page. Both branches of the loop store a present page that is open to
user code, so user code reaches all of the low 4 MB, the save areas of the terminals
among it, and this is the only way around the video page.
-/

namespace KudOS

open TwoLevel

namespace Paging

/-- The tables during a run of `paging.c`, with the directories built so far. -/
inductive Built (m : Machine) : Paging → Set ℕ → Prop where
  | init {p p' : Paging} (hx : p.pagingInit m = .ok p') : Built m p' {0}
  | newTask {p p' : Paging} {built : Set ℕ} {d : ℕ} (h : Built m p built) (hd : d < maxTasks)
      (hx : p.newTaskPd m d = .ok p') : Built m p' (insert d built)
  | vidmap {p p' : Paging} {built : Set ℕ} {d : ℕ} (h : Built m p built) (hd : d ∈ built)
      (hx : p.createVidmap m d = .ok p') : Built m p' built
  | load {p p' : Paging} {built : Set ℕ} {d : ℕ} (h : Built m p built) (hd : d ∈ built)
      (hx : p.loadPageDirectory d = .ok p') : Built m p' built

/-- Directory `d` as `paging_init` or `new_task_pd` built it. The former has no program. -/
structure Opened (m : Machine) (p : Paging) (d : ℕ) : Prop where
  entry : ∀ k < entries, k ≠ vidmapOffset → p.pageDirectories d k = taskDirectory m d k ∨
    k = programOffset ∧ p.pageDirectories d k = attribute0
  vidmap : p.VidmapEntry m d

variable {m : Machine} {p p' : Paging} {built : Set ℕ} {d v : ℕ}

theorem TaskMapped.opened (h : p.TaskMapped m d) : p.Opened m d :=
  ⟨fun k hk hne => Or.inl (h.entry k hk hne), h.vidmap⟩

theorem Opened.congr (h : p.Opened m d) (hdir : p'.pageDirectories d = p.pageDirectories d)
    (htable : p'.pageTableVidmap = p.pageTableVidmap) : p'.Opened m d := by
  refine ⟨fun k hk hne => ?_, ?_⟩
  · rw [hdir]
    exact h.entry k hk hne
  · rw [VidmapEntry, hdir, htable]
    exact h.vidmap

theorem Opened.createVidmap {e : ℕ} (h : p.Opened m d) (he : e < maxTasks)
    (hp : p.createVidmap m e = .ok p') : p'.Opened m d := by
  refine ⟨fun k hk hne => ?_, h.vidmap.createVidmap he hp⟩
  rw [createVidmap_entry he hp hne]
  exact h.entry k hk hne

theorem opened_pagingInit (hp : p.pagingInit m = .ok p') : p'.Opened m 0 := by
  have hdir : ∀ k, p'.pageDirectories 0 k = Function.update (Function.update
      (fun k => if k < entries then attribute0 else p.pageDirectories 0 k)
      videoOffset (m.pageTableAddr ||| attribute1)) kernelOffset kernelPage k := by
    intro k
    rw [← Except.ok.inj hp]
    simp only [clearDirectory_eq, setEntry, setDirectory]
    simp only [Function.update_self]
  refine ⟨fun k hk hne => ?_, Or.inl ?_⟩
  · by_cases hkern : k = kernelOffset
    · subst hkern
      rw [hdir, Function.update_self]
      exact Or.inl rfl
    by_cases hvid : k = videoOffset
    · subst hvid
      rw [hdir, Function.update_of_ne hkern, Function.update_self]
      exact Or.inl rfl
    have habsent : p'.pageDirectories 0 k = attribute0 := by
      rw [hdir, Function.update_of_ne hkern, Function.update_of_ne hvid, if_pos hk]
    by_cases hprog : k = programOffset
    · exact Or.inr ⟨hprog, habsent⟩
    · rw [taskDirectory, if_neg hprog, if_neg hkern, if_neg hvid]
      exact Or.inl habsent
  · rw [hdir]
    rfl

/-! ## Runs -/

theorem Built.lt_maxTasks (h : Built m p built) (hd : d ∈ built) : d < maxTasks := by
  induction h with
  | init hx =>
    rw [Set.mem_singleton_iff] at hd
    rw [hd]
    decide
  | newTask _ hlt _ ih =>
    rcases hd with rfl | hd
    · exact hlt
    · exact ih hd
  | vidmap _ _ _ ih => exact ih hd
  | load _ _ _ ih => exact ih hd

/-- By induction on the run: nothing but `paging_init` writes the low table. -/
theorem Built.low (h : Built m p built) : p.LowIdentity := by
  induction h with
  | init hx => exact pagingInit_low hx
  | @newTask p p' built d h hlt hx ih =>
    rw [newTaskPd_eq m p hlt] at hx
    rw [← Except.ok.inj hx]
    exact ih
  | vidmap h hd hx ih => exact createVidmap_low ih (h.lt_maxTasks hd) hx
  | load h hd hx ih =>
    rw [loadPageDirectory, if_pos (h.lt_maxTasks hd)] at hx
    rw [← Except.ok.inj hx]
    exact ih

/-- By induction on the run: a directory once built is changed by `create_vidmap` only,
until it is built anew. -/
theorem Built.opened (h : Built m p built) (hd : d ∈ built) : p.Opened m d := by
  induction h with
  | init hx =>
    rw [Set.mem_singleton_iff] at hd
    rw [hd]
    exact opened_pagingInit hx
  | @newTask p p' built e h hlt hx ih =>
    rw [newTaskPd_eq m p hlt] at hx
    rw [← Except.ok.inj hx]
    by_cases hde : d = e
    · subst hde
      exact (taskMapped_new m p d d).opened
    · exact (ih (hd.resolve_left hde)).congr (setDirectory_of_ne _ _ hde) rfl
  | vidmap h he hx ih => exact (ih hd).createVidmap (h.lt_maxTasks he) hx
  | load h he hx ih =>
    rw [loadPageDirectory, if_pos (h.lt_maxTasks he)] at hx
    rw [← Except.ok.inj hx]
    exact (ih hd).congr rfl rfl

/-! ## What user code reaches -/

/-- Every mapping at or above 4 MB leads to the video page or above the low 4 MB. -/
theorem translate_high (hm : m.Aligned) (hne : m.pageTableVidmapAddr ≠ m.pageTableAddr)
    (ho : p.Opened m d) (hlow : p.LowIdentity) (hv : v < 2 ^ 32) (hhigh : 0x400000 ≤ v) {a : ℕ}
    (ha : translate (p.pageDirectories d) (p.tableAt m) v = some a) (hlt : a < 0x400000) :
    0xB8000 ≤ a ∧ a < 0xB9000 := by
  have hk : dirIndex v < entries := by
    rw [dirIndex, entries]
    omega
  have hvideo : dirIndex v ≠ videoOffset := by
    rw [dirIndex, videoOffset]
    omega
  by_cases hvid : dirIndex v = vidmapOffset
  · rcases translate_vidmap hm ho.vidmap hlow hvid ha with hpage | ⟨hone, -⟩
    · exact hpage
    · exact absurd hone hne
  have habsent : ∀ {e : ℕ}, p.pageDirectories d (dirIndex v) = e → ¬ (Present e ∧ User e) →
      0xB8000 ≤ a ∧ a < 0xB9000 := by
    intro e he hno
    rw [translate_absent he hno] at ha
    cases ha
  rcases ho.entry _ hk hvid with he | ⟨-, he⟩
  · by_cases hprog : dirIndex v = programOffset
    · rw [hprog] at he
      rw [translate_program he hprog] at ha
      have ha' := Option.some.inj ha
      omega
    rw [taskDirectory, if_neg hprog] at he
    by_cases hkern : dirIndex v = kernelOffset
    · rw [if_pos hkern] at he
      exact habsent he (by decide)
    · rw [if_neg hkern, if_neg hvideo] at he
      exact habsent he (by decide)
  · exact habsent he (by decide)

/-- What the comment on the table promises at the address `v`: user code that reaches
the low 4 MB is in the video page. -/
def VideoPageOnly (m : Machine) (p : Paging) (d v : ℕ) : Prop :=
  ∀ a, translate (p.pageDirectories d) (p.tableAt m) v = some a → a < 0x400000 →
    0xB8000 ≤ a ∧ a < 0xB9000

theorem Built.translate_low (hm : m.Aligned) (h : Built m p built) (hd : d ∈ built)
    (hv : v < 0x400000) : translate (p.pageDirectories d) (p.tableAt m) v = some v := by
  have hidx : dirIndex v = videoOffset := by
    rw [dirIndex, videoOffset]
    omega
  refine Paging.translate_low hm ?_ h.low hidx
  rcases (h.opened hd).entry videoOffset (by decide) (by decide) with he | ⟨hoff, -⟩
  · exact he
  · exact absurd hoff (by decide)

/-- For every directory built in a run and every address: the promise holds exactly if
the address is above the low 4 MB or in the video page. The linker places the two
tables at different addresses. -/
theorem videoPageOnly_iff (hm : m.Aligned) (hne : m.pageTableVidmapAddr ≠ m.pageTableAddr)
    (h : Built m p built) (hd : d ∈ built) (hv : v < 2 ^ 32) :
    VideoPageOnly m p d v ↔ 0x400000 ≤ v ∨ 0xB8000 ≤ v ∧ v < 0xB9000 := by
  constructor
  · intro honly
    by_cases hhigh : 0x400000 ≤ v
    · exact Or.inl hhigh
    · have hlow : v < 0x400000 := by omega
      exact Or.inr (honly v (h.translate_low hm hd hlow) hlow)
  · rintro (hhigh | hpage) a ha hlt
    · exact translate_high hm hne (h.opened hd) h.low hv hhigh ha hlt
    · rw [h.translate_low hm hd (by omega)] at ha
      cases ha
      exact hpage

theorem bootKernel_built : Built shellMachine bootKernel.paging {0} :=
  .init bootKernel_bootState.paging

/-- The video page itself, in the directory of `paging_init`. -/
theorem bootKernel_videoPage : VideoPageOnly shellMachine bootKernel.paging 0 0xB8000 :=
  (videoPageOnly_iff ⟨by decide, by decide⟩ (by decide) bootKernel_built rfl (by decide)).mpr
    (Or.inr (by decide))

/-- The save area of the first terminal is open to user code. -/
theorem bootKernel_saveArea_open : Built shellMachine bootKernel.paging {0} ∧
    translate (bootKernel.paging.pageDirectories 0) (bootKernel.paging.tableAt shellMachine) 0x1000 =
      some 0x1000 ∧
    ¬ VideoPageOnly shellMachine bootKernel.paging 0 0x1000 := by
  have hreach := bootKernel_built.translate_low ⟨by decide, by decide⟩ rfl
    (v := 0x1000) (by decide)
  refine ⟨bootKernel_built, hreach, fun honly => ?_⟩
  have hpage := honly 0x1000 hreach (by decide)
  exact absurd hpage.1 (by decide)

end Paging
end KudOS
