import KudOS.CurrentProcess
import KudOS.ProtectedMode

/-!
# Address spaces

The directories that `new_task_pd` builds and `create_vidmap` extends, read by the
hardware. Every live process sees the low 4 MB, its own page of 4 MB, and nothing else.
-/

namespace KudOS

open TwoLevel

/-- Word `k` of the table at the physical address `base`. -/
def Paging.tableAt (m : Machine) (p : Paging) (base k : ℕ) : ℕ :=
  if base = m.pageTableAddr then p.pageTable k
  else if base = m.pageTableVidmapAddr then p.pageTableVidmap k
  else m.strayTables base k

/-- The linker placed the two tables on page boundaries. -/
structure Machine.Aligned (m : Machine) : Prop where
  pageTable : m.pageTableAddr % pageSize4KB = 0
  pageTableVidmap : m.pageTableVidmapAddr % pageSize4KB = 0

/-- The base of the physical page of process `pid`. -/
def frameOf (pid : ℕ) : ℕ := 0x800000 + 0x400000 * (pid - 1)

namespace Paging

/-- Directory `d` is that of a task, possibly with the video page mapped. -/
structure TaskMapped (m : Machine) (p : Paging) (d : ℕ) : Prop where
  entry : ∀ k < entries, k ≠ vidmapOffset → p.pageDirectories d k = taskDirectory m d k
  vidmap : p.pageDirectories d vidmapOffset = attribute0 ∨
    p.pageDirectories d vidmapOffset = m.pageTableVidmapAddr ||| attribute1 ∧
      ∀ j < entries, p.pageTableVidmap j = vidmapTable j

/-- The entry of the video mapping in directory `d`, before or after `create_vidmap`. -/
def VidmapEntry (m : Machine) (p : Paging) (d : ℕ) : Prop :=
  p.pageDirectories d vidmapOffset = attribute0 ∨
    p.pageDirectories d vidmapOffset = m.pageTableVidmapAddr ||| attribute1 ∧
      ∀ j < entries, p.pageTableVidmap j = vidmapTable j

/-- The table of the low 4 MB maps every page to itself. -/
def LowIdentity (p : Paging) : Prop :=
  ∀ j < entries, p.pageTable j = (j * pageSize4KB) ||| attribute1

variable {m : Machine} {p : Paging} {d v : ℕ}

theorem tableIndex_lt (v : ℕ) : tableIndex v < entries := Nat.mod_lt _ (by decide)

theorem lowPage_eq (j : ℕ) : j * pageSize4KB ||| attribute1 = j * 2 ^ 12 ||| 7 := by simp

theorem translate_low (hm : m.Aligned)
    (he : p.pageDirectories d videoOffset = m.pageTableAddr ||| attribute1) (hlow : p.LowIdentity)
    (hv : dirIndex v = videoOffset) :
    translate (p.pageDirectories d) (p.tableAt m) v = some v := by
  rw [← hv] at he
  obtain ⟨hp, hu, hl, hbase⟩ := aligned_entry hm.pageTable
  have hpte : p.tableAt m m.pageTableAddr (tableIndex v) = (tableIndex v * 2 ^ 12) ||| 7 := by
    rw [tableAt, if_pos rfl, hlow _ (tableIndex_lt v), lowPage_eq]
  obtain ⟨hp', hu', -, hbase'⟩ := aligned_entry (a := tableIndex v * 2 ^ 12) (by omega)
  rw [attribute1] at he
  rw [translate_table he ⟨hp, hu⟩ hl hbase hpte, if_pos ⟨hp', hu'⟩, hbase']
  rw [dirIndex, videoOffset] at hv
  have hsplit : tableIndex v * 2 ^ 12 + v % 2 ^ 12 = v := by
    rw [tableIndex]
    omega
  rw [hsplit]

theorem translate_program (he : p.pageDirectories d programOffset = userPage8MB + d * fourMB)
    (hv : dirIndex v = programOffset) :
    translate (p.pageDirectories d) (p.tableAt m) v =
      some (0x800000 + 0x400000 * d + (v - pageVirtAddr)) := by
  rw [← hv] at he
  have hbits : Present (userPage8MB + d * fourMB) ∧ User (userPage8MB + d * fourMB) ∧
      Large (userPage8MB + d * fourMB) := by
    rw [Present, User, Large, userPage8MB, fourMB]
    omega
  rw [translate_large he ⟨hbits.1, hbits.2.1⟩ hbits.2.2]
  rw [dirIndex, programOffset] at hv
  have haddr : (userPage8MB + d * fourMB) / 2 ^ 22 * 2 ^ 22 + v % 2 ^ 22 =
      0x800000 + 0x400000 * d + (v - pageVirtAddr) := by
    rw [userPage8MB, fourMB, pageVirtAddr]
    omega
  rw [haddr]

/-- Through the table of `create_vidmap` only the video page can be reached. -/
theorem tableBase_vidmapTable {j : ℕ} (h : Present (vidmapTable j)) :
    tableBase (vidmapTable j) = videoPage := by
  unfold vidmapTable at h ⊢
  split at h
  · rw [if_pos ‹_›]
    decide
  · exact absurd h (by decide)

theorem translate_vidmap (hm : m.Aligned) (he : p.VidmapEntry m d) (hlow : p.LowIdentity)
    (hv : dirIndex v = vidmapOffset) {a : ℕ}
    (ha : translate (p.pageDirectories d) (p.tableAt m) v = some a) :
    0xB8000 ≤ a ∧ a < 0xB9000 ∨ m.pageTableVidmapAddr = m.pageTableAddr ∧ a < 0x400000 := by
  rcases he with he | ⟨he, htable⟩
  · rw [← hv] at he
    rw [translate_absent he (by decide)] at ha
    cases ha
  rw [← hv, attribute1] at he
  obtain ⟨hp, hu, hl, hbase⟩ := aligned_entry hm.pageTableVidmap
  rw [translate_table he ⟨hp, hu⟩ hl hbase rfl] at ha
  split at ha
  · rename_i hpte
    cases ha
    have hidx := tableIndex_lt v
    rw [tableAt] at hpte ⊢
    split at hpte
    · -- both tables at one address: then it is the identity table
      obtain ⟨-, -, -, hbase'⟩ := aligned_entry (a := tableIndex v * 2 ^ 12) (by omega)
      rename_i hone
      rw [if_pos hone, hlow _ hidx, lowPage_eq, hbase']
      rw [entries] at hidx
      exact Or.inr ⟨hone, by omega⟩
    · rw [if_neg ‹_›, if_pos rfl]
      rw [if_pos rfl, htable _ hidx] at hpte
      rw [htable _ hidx, tableBase_vidmapTable hpte.1, videoPage]
      omega
  · cases ha

/-- What user code reaches through the directory of a task. -/
theorem translate_task (hm : m.Aligned) (ht : p.TaskMapped m d) (hlow : p.LowIdentity)
    (hv : v < 2 ^ 32) {a : ℕ} (ha : translate (p.pageDirectories d) (p.tableAt m) v = some a) :
    a < 0x400000 ∨ 0x800000 + 0x400000 * d ≤ a ∧ a < 0x800000 + 0x400000 * d + 0x400000 := by
  have hk : dirIndex v < entries := by
    rw [dirIndex, entries]
    omega
  by_cases hvid : dirIndex v = vidmapOffset
  · have hin := translate_vidmap hm ht.vidmap hlow hvid ha
    omega
  by_cases hprog : dirIndex v = programOffset
  · rw [translate_program (ht.entry programOffset (by decide) (by decide)) hprog] at ha
    have ha' := Option.some.inj ha
    rw [dirIndex, programOffset] at hprog
    rw [pageVirtAddr] at ha'
    omega
  by_cases hlow' : dirIndex v = videoOffset
  · rw [translate_low hm (ht.entry videoOffset (by decide) (by decide)) hlow hlow'] at ha
    cases ha
    rw [dirIndex, videoOffset] at hlow'
    omega
  -- the kernel page is closed to user code, all other entries are absent
  have he := ht.entry _ hk hvid
  rw [taskDirectory, if_neg hprog, if_neg hlow'] at he
  by_cases hkern : dirIndex v = kernelOffset
  · rw [if_pos hkern] at he
    rw [translate_absent he (by decide)] at ha
    cases ha
  · rw [if_neg hkern] at he
    rw [translate_absent he (by decide)] at ha
    cases ha

theorem TaskMapped.congr {p' : Paging} (h : p.TaskMapped m d)
    (hdir : p'.pageDirectories d = p.pageDirectories d)
    (htable : p'.pageTableVidmap = p.pageTableVidmap) : p'.TaskMapped m d := by
  refine ⟨fun k hk hne => ?_, ?_⟩
  · rw [hdir]
    exact h.entry k hk hne
  · rw [hdir, htable]
    exact h.vidmap

theorem taskMapped_new (m : Machine) (p : Paging) (d c : ℕ) :
    TaskMapped m { p.setDirectory d (fun k => if k < entries then taskDirectory m d k
      else p.pageDirectories d k) with cr3 := c } d := by
  have hdir : ∀ k < entries, (p.setDirectory d (fun k => if k < entries then
      taskDirectory m d k else p.pageDirectories d k)).pageDirectories d k =
      taskDirectory m d k := by
    intro k hk
    rw [setDirectory_self, if_pos hk]
  exact ⟨fun k hk _ => hdir k hk, Or.inl (hdir vidmapOffset (by decide))⟩

theorem createVidmap_entry {p' : Paging} {e k : ℕ} (he : e < maxTasks)
    (hp : p.createVidmap m e = .ok p') (hk : k ≠ vidmapOffset) :
    p'.pageDirectories d k = p.pageDirectories d k := by
  rw [createVidmap_eq m p he] at hp
  rw [← Except.ok.inj hp]
  by_cases hde : d = e
  · subst hde
    simp only [setEntry, setDirectory_self, Function.update_of_ne hk]
  · simp only [setEntry, setDirectory_of_ne _ _ hde]

theorem VidmapEntry.createVidmap {p' : Paging} {e : ℕ} (h : p.VidmapEntry m d)
    (he : e < maxTasks) (hp : p.createVidmap m e = .ok p') : p'.VidmapEntry m d := by
  rw [createVidmap_eq m p he] at hp
  rw [← Except.ok.inj hp]
  have htable : ∀ j < entries, (if j < entries then vidmapTable j else p.pageTableVidmap j) =
      vidmapTable j := fun j hj => if_pos hj
  by_cases hde : d = e
  · subst hde
    refine Or.inr ⟨?_, htable⟩
    simp only [setEntry, setDirectory_self, Function.update_self]
  · rw [VidmapEntry]
    simp only [setEntry, setDirectory_of_ne _ _ hde]
    rcases h with h0 | ⟨h1, -⟩
    · exact Or.inl h0
    · exact Or.inr ⟨h1, htable⟩

theorem TaskMapped.createVidmap {p' : Paging} {e : ℕ} (h : p.TaskMapped m d) (he : e < maxTasks)
    (hp : p.createVidmap m e = .ok p') : p'.TaskMapped m d where
  entry k hk hne := (createVidmap_entry he hp hne).trans (h.entry k hk hne)
  vidmap := VidmapEntry.createVidmap h.vidmap he hp

theorem createVidmap_low {p' : Paging} {e : ℕ} (h : p.LowIdentity) (he : e < maxTasks)
    (hp : p.createVidmap m e = .ok p') : p'.LowIdentity := by
  rw [createVidmap_eq m p he] at hp
  rw [← Except.ok.inj hp]
  exact h

theorem pagingInit_low {p' : Paging} (hp : p.pagingInit m = .ok p') : p'.LowIdentity := by
  have hstore := forLoop_store entries 0 (fun j => j * pageSize4KB ||| attribute1)
    (p.clearDirectory 0).pageTable
  simp only [Nat.zero_add, Nat.zero_le, true_and, Nat.sub_zero] at hstore
  intro j hj
  have hp' := Except.ok.inj hp
  rw [← hp']
  change forLoop entries (fun j t => Function.update t j (j * pageSize4KB ||| attribute1))
    (p.clearDirectory 0).pageTable j = _
  rw [hstore]
  exact if_pos hj

end Paging

namespace Kernel

variable {m : Machine} {fr : StackFrame} {s s' : Kernel} {σ : TerminalId → List ℕ}

/-- The tables of all live processes are as the kernel built them. -/
structure Mapped (m : Machine) (s : Kernel) : Prop where
  low : s.paging.LowIdentity
  task : ∀ i, 1 ≤ i → i ≤ 6 → s.Live i → s.paging.TaskMapped m (i - 1)

/-- Loading another directory and ending processes do no harm. -/
theorem Mapped.congr (h : s.Mapped m) (hlive : ∀ i, s'.Live i → s.Live i)
    (hdirs : s'.paging.pageDirectories = s.paging.pageDirectories)
    (htable : s'.paging.pageTable = s.paging.pageTable)
    (hvid : s'.paging.pageTableVidmap = s.paging.pageTableVidmap) : s'.Mapped m := by
  refine ⟨fun j hj => ?_, fun i h1 h6 hl => (h.task i h1 h6 (hlive i hl)).congr ?_ hvid⟩
  · rw [htable]
    exact h.low j hj
  · rw [hdirs]

theorem live_of_procTable (h : s'.procTable = s.procTable) (i : ℕ) (hl : s'.Live i) : s.Live i := by
  have hid : (s'.pcbs i).programId = (s.pcbs i).programId := congrArg (fun c => c.programId i) h
  rwa [Live, hid] at hl

theorem Mapped.execute (h : s.Mapped m) (hwf : s.Wf σ) {command : Option (List UInt8)}
    {o : ExecOutcome} (hx : ExecuteResult m fr command s o s') : s'.Mapped m := by
  cases o with
  | returned v =>
    obtain ⟨hsame, hpaging, -⟩ := hx.unchanged hwf
    exact h.congr (live_of_procTable hsame.procTable) (by rw [hpaging]) (by rw [hpaging])
      (by rw [hpaging])
  | started entry =>
    cases hx with
    | started hn i h1 h6 hfree name args mem =>
      refine ⟨h.low, fun j hj1 hj6 hl => ?_⟩
      by_cases hji : j = i
      · subst hji
        exact Paging.taskMapped_new m s.paging (j - 1) (j - 1)
      · have hl' : s.Live j := by
          have hpcb : (s.launched m fr i name args mem).pcbs j = s.pcbs j :=
            Function.update_of_ne hji ..
          rwa [Live, hpcb] at hl
        refine (h.task j hj1 hj6 hl').congr ?_ rfl
        exact Paging.setDirectory_of_ne _ _ (by omega)

theorem popped_live (s : Kernel) (fa : ℕ → FsDescriptor) (i : ℕ) (hl : (s.popped fa).Live i) :
    s.Live i := by
  by_cases hi : i = s.cur
  · rw [hi, Live, popped_pcbs_self] at hl
    exact absurd rfl hl
  · rwa [Live, popped_pcbs_of_ne s fa hi] at hl

theorem Mapped.halt (h : s.Mapped m) (hwf : s.Wf σ) {o : HaltOutcome}
    (hx : HaltResult m fr s σ o s') : s'.Mapped m := by
  cases hx with
  | resumed j l hσ fa hfa => exact h.congr (popped_live s fa) rfl rfl rfl
  | restarted hσ fa hfa entry _ hexec =>
    have hpop : (s.popped fa).Mapped m := h.congr (popped_live s fa) rfl rfl rfl
    exact hpop.execute (hwf.popped hσ hfa) hexec

theorem Mapped.switch (h : s.Mapped m) (hwf : s.Wf σ) {t : TerminalId}
    (hx : SwitchResult m fr s σ t s') : s'.Mapped m := by
  cases hx with
  | same ht => exact h
  | live ht j l hσ => exact h.congr (fun _ hl => hl) rfl rfl rfl
  | empty ht hσ o _ hexec =>
    have hshown : (s.shown t).Mapped m := h.congr (fun _ hl => hl) rfl rfl rfl
    exact hshown.execute (hwf.shown t) hexec

theorem Mapped.vidmap (h : s.Mapped m) (hwf : s.Wf σ) (hlive : s.Live s.cur) {v : ℕ} {r : ℤ}
    (hx : s.vidmap m v = .ok (r, s')) : s'.Mapped m := by
  rcases vidmap_cases hx with rfl | ⟨p, mem, hp, rfl⟩
  · exact h
  · have hle := hwf.cur_le
    have hid := hwf.programId_cur
    have hpos : 0 < s.cur := by
      rw [← hid]
      exact Nat.pos_of_ne_zero hlive
    rw [hid, dec32_of_pos hpos (by omega)] at hp
    have hlt : s.cur - 1 < maxTasks := by
      rw [maxTasks]
      omega
    exact ⟨Paging.createVidmap_low h.low hlt hp,
      fun i h1 h6 hl => (h.task i h1 h6 hl).createVidmap hlt hp⟩

theorem Mapped.fileStep (h : s.Mapped m) {fa : ℕ → FsDescriptor} (hx : FileStep s fa s') :
    s'.Mapped m := by
  cases hx with
  | intro y hy d r =>
    exact h.congr (live_of_procTable (procTable_withFiles s fa)) rfl rfl rfl

theorem Mapped.step (h : s.Mapped m) (hs : s.Sound σ) {a : Step} (ha : s.ByLive a)
    (hx : s.step m a = .ok s') : s'.Mapped m := by
  cases a with
  | execute fr command =>
    obtain ⟨⟨o, u⟩, hexec, hpure⟩ := bind_eq_ok.mp hx
    cases hpure
    exact h.execute hs.toWf (execute_cases hs.ready hexec)
  | halt fr status =>
    obtain ⟨⟨o, u⟩, hhalt, hpure⟩ := bind_eq_ok.mp hx
    cases hpure
    exact h.halt hs.toWf (halt_cases hs.ready ha (hs.toWf.files_cur ha) hhalt)
  | switchTerminal fr t => exact h.switch hs.toWf (switchTerminal_cases hs.ready hx)
  | vidmap v =>
    obtain ⟨⟨r, u⟩, hvid, hpure⟩ := bind_eq_ok.mp hx
    cases hpure
    exact h.vidmap hs.toWf ha hvid
  | file op =>
    obtain ⟨⟨r, u⟩, hop, hpure⟩ := bind_eq_ok.mp hx
    cases hpure
    obtain ⟨fa, hstep, -⟩ := op.apply_step (hs.toWf.files_cur ha) hop
    exact h.fileStep hstep
  | interrupt y =>
    cases hx
    exact h.congr (fun _ hl => hl) rfl rfl rfl

theorem Reachable.mapped (h : Reachable m ByLive s) : s.Mapped m := by
  induction h with
  | @boot s₀ s fr entry h₀ hx =>
    have hnone : ∀ i, ¬ s₀.Live i := by
      intro i hl
      rw [Live, h₀.pcbs] at hl
      exact hl rfl
    have hboot : s₀.Mapped m :=
      ⟨Paging.pagingInit_low h₀.paging, fun i _ _ hl => absurd hl (hnone i)⟩
    exact hboot.execute h₀.wf (execute_cases h₀.wf.ready hx)
  | step hr ha hx ih =>
    obtain ⟨σ, hs⟩ := hr.sound
    exact ih.step hs ha hx

/-- The physical address user code of process `pid` reaches at `v`. -/
def userTranslate (m : Machine) (s : Kernel) (pid v : ℕ) : Option ℕ :=
  translate (s.paging.pageDirectories (pid - 1)) (s.paging.tableAt m) v

/-- In every state of every run, a live process reaches the low 4 MB and its own page
of 4 MB only, not the kernel page and no page of another process, and its program
area is its own page. -/
theorem address_spaces_isolated (hm : m.Aligned) (h : Reachable m ByLive s) {pid : ℕ}
    (h1 : 1 ≤ pid) (h6 : pid ≤ 6) (hlive : s.Live pid) :
    (∀ v < 2 ^ 32, ∀ a, s.userTranslate m pid v = some a →
      (a < 0x400000 ∨ frameOf pid ≤ a ∧ a < frameOf pid + 0x400000) ∧
      ¬ (0x400000 ≤ a ∧ a < 0x800000) ∧
      ∀ q, 1 ≤ q → q ≤ 6 → q ≠ pid → ¬ (frameOf q ≤ a ∧ a < frameOf q + 0x400000)) ∧
    ∀ v, 0x8000000 ≤ v → v < 0x8400000 →
      s.userTranslate m pid v = some (frameOf pid + (v - 0x8000000)) := by
  have hmap := h.mapped
  have ht := hmap.task pid h1 h6 hlive
  refine ⟨fun v hv a ha => ?_, fun v hlo hhi => ?_⟩
  · have hcases := Paging.translate_task hm ht hmap.low hv ha
    simp only [frameOf]
    refine ⟨by omega, by omega, fun q hq1 hq6 hne => by omega⟩
  · have hidx : dirIndex v = programOffset := by
      rw [dirIndex, programOffset]
      omega
    exact Paging.translate_program (ht.entry programOffset (by decide) (by decide)) hidx

/-- The shell that was started on the second terminal. -/
theorem second_terminal_isolated : ∃ s s₁ s₂ s₃ s₄ : Kernel, Excursion s s₁ s₂ s₃ ∧
    s₃.switchTerminal shellMachine blankFrame 1 = .ok s₄ ∧ s₄.Live s₄.cur ∧
    (∀ a, s₄.userTranslate shellMachine s₄.cur 0x8048000 = some a → ¬ (0x400000 ≤ a ∧ a < 0x800000)) ∧
    s₄.userTranslate shellMachine s₄.cur 0x8048000 = some (frameOf s₄.cur + 0x48000) := by
  obtain ⟨s, s₁, s₂, s₃, s₄, -, hexc, -, -, hswitch, hs₄⟩ := shell_on_second_terminal
  obtain ⟨σ, hsound, hlive⟩ := hs₄.switchHasRoom.live shellImage_hasShell
  have hpos : 1 ≤ s₄.cur := by
    rw [← hsound.toWf.programId_cur]
    exact Nat.one_le_iff_ne_zero.mpr hlive
  have hiso := address_spaces_isolated ⟨by decide, by decide⟩ hs₄.byLive hpos
    hsound.toWf.cur_le hlive
  exact ⟨s, s₁, s₂, s₃, s₄, hexc, hswitch, hlive,
    fun a ha => (hiso.1 0x8048000 (by decide) a ha).2.1, hiso.2 0x8048000 (by decide) (by decide)⟩

end Kernel
end KudOS
