import KudOS.AddressSpaces

/-!
# The video mapping

`vidmap` for every address of the caller's pointer. The range test admits the last
bytes of the user page and the address behind it, where the pointer does not fit.
-/

namespace KudOS

open TwoLevel

/-- The two tables are different objects on page boundaries. -/
structure Machine.Linked (m : Machine) : Prop extends m.Aligned where
  distinct : m.pageTableVidmapAddr ≠ m.pageTableAddr

namespace Paging

variable {m : Machine} {p p' : Paging} {d v : ℕ}

/-- Outside of the video region the translation of a task is fixed. -/
theorem translate_task_eq (hm : m.Aligned) (ht : p.TaskMapped m d) (ht' : p'.TaskMapped m d)
    (hlow : p.LowIdentity) (hlow' : p'.LowIdentity) (hv : v < 2 ^ 32)
    (hne : dirIndex v ≠ vidmapOffset) :
    translate (p'.pageDirectories d) (p'.tableAt m) v =
      translate (p.pageDirectories d) (p.tableAt m) v := by
  have hk : dirIndex v < entries := by
    rw [dirIndex, entries]
    omega
  by_cases hprog : dirIndex v = programOffset
  · rw [translate_program (ht.entry _ (by decide) (by decide)) hprog,
      translate_program (ht'.entry _ (by decide) (by decide)) hprog]
  by_cases hvideo : dirIndex v = videoOffset
  · rw [translate_low hm (ht.entry _ (by decide) (by decide)) hlow hvideo,
      translate_low hm (ht'.entry _ (by decide) (by decide)) hlow' hvideo]
  have hclosed : ¬ (Present (taskDirectory m d (dirIndex v)) ∧
      User (taskDirectory m d (dirIndex v))) := by
    rw [taskDirectory, if_neg hprog, if_neg hvideo]
    split <;> decide
  rw [translate_absent (ht.entry _ hk hne) hclosed, translate_absent (ht'.entry _ hk hne) hclosed]

/-- The entry that `create_vidmap` stores, and the table it refers to. -/
theorem createVidmap_installed (hd : d < maxTasks) (hp : p.createVidmap m d = .ok p') :
    p'.pageDirectories d vidmapOffset = m.pageTableVidmapAddr ||| attribute1 ∧
      ∀ j < entries, p'.pageTableVidmap j = vidmapTable j := by
  rw [createVidmap_eq m p hd] at hp
  rw [← Except.ok.inj hp]
  refine ⟨?_, fun j hj => if_pos hj⟩
  simp only [setEntry, setDirectory_self, Function.update_self]

/-- In the video region exactly one page is open to user code. -/
theorem translate_video (hm : m.Linked) (hd : d < maxTasks) (hp : p.createVidmap m d = .ok p')
    (hv : dirIndex v = vidmapOffset) :
    translate (p'.pageDirectories d) (p'.tableAt m) v =
      if tableIndex v = 0xB8 then some (videoPage + v % 2 ^ 12) else none := by
  obtain ⟨he, htable⟩ := createVidmap_installed hd hp
  rw [← hv, attribute1] at he
  obtain ⟨hpresent, huser, hlarge, hbase⟩ := aligned_entry hm.pageTableVidmap
  have hpte : p'.tableAt m m.pageTableVidmapAddr (tableIndex v) = vidmapTable (tableIndex v) := by
    rw [tableAt, if_neg hm.distinct, if_pos rfl, htable _ (tableIndex_lt v)]
  rw [translate_table he ⟨hpresent, huser⟩ hlarge hbase hpte]
  have hindex : tableIndex v * pageSize4KB = videoPage ↔ tableIndex v = 0xB8 := by
    rw [pageSize4KB, videoPage]
    omega
  by_cases hpage : tableIndex v = 0xB8
  · rw [vidmapTable, if_pos (hindex.mpr hpage), if_pos hpage, if_pos (by decide)]
    congr 2
  · rw [vidmapTable, if_neg (mt hindex.mp hpage), if_neg hpage, if_neg (by decide)]

end Paging

namespace Kernel

/-- The four bytes from `v` on lie in the user page. -/
def InUserPage (v : ℕ) : Prop := pageVirtAddr ≤ v ∧ v + 4 ≤ pageVirtAddr + pageSize4MB

/-- `ptr` is mapped to the video memory for the current process, the rest of its
region of 4 MB is closed, and all processes keep what they see outside of it. -/
structure VideoRegion (m : Machine) (s s' : Kernel) (ptr : ℕ) : Prop where
  page : ∀ k < 4096, s'.userTranslate m s.cur (ptr + k) = some (0xB8000 + k)
  closed : ∀ w < 2 ^ 32, dirIndex w = dirIndex ptr → ¬ (ptr ≤ w ∧ w < ptr + 4096) →
    s'.userTranslate m s.cur w = none
  outside : ∀ w < 2 ^ 32, dirIndex w ≠ dirIndex ptr → ∀ i, 1 ≤ i → i ≤ 6 → s.Live i →
    s'.userTranslate m i w = s.userTranslate m i w

/-- `vidmap` stored a pointer to the video memory at `v`. -/
structure VideoMapped (m : Machine) (s s' : Kernel) (v : ℕ) : Prop where
  inPage : InUserPage v
  pointer : ∃ ptr < 2 ^ 32,
    (∀ i < 4, s'.userByte (v + i) = some (ptr >>> (8 * i)).toUInt8) ∧ VideoRegion m s s' ptr

/-- All or nothing, and all whenever the pointer fits. -/
structure VidmapContract (m : Machine) (s : Kernel) (v : ℕ) : Prop where
  outcome : s.vidmap m v = .ok (-1, s) ∨ ∃ s', s.vidmap m v = .ok (0, s') ∧ VideoMapped m s s' v
  served : InUserPage v → ∃ s', s.vidmap m v = .ok (0, s')

variable {m : Machine} {s s' : Kernel} {σ : TerminalId → List ℕ} {v : ℕ}

theorem Sound.directory (h : s.Sound σ) (hlive : s.Live s.cur) :
    1 ≤ s.cur ∧ s.cur - 1 < maxTasks ∧ dec32 s.curPcb.programId = s.cur - 1 ∧
      s.paging.cr3 = s.cur - 1 := by
  have hle := h.toWf.cur_le
  have hid := h.toWf.programId_cur
  have hpos : 1 ≤ s.cur := by
    have hne : s.curPcb.programId ≠ 0 := hlive
    omega
  have hcr3 := (h.installed hlive).cr3
  rw [hid] at hcr3
  rw [hid, dec32_of_pos hpos (by omega), maxTasks]
  exact ⟨hpos, by omega, rfl, hcr3⟩

/-- The page of a task, as the kernel reaches it through the loaded directory. -/
theorem userFrame_task {p : Paging} {d : ℕ} (hcr3 : p.cr3 = d)
    (he : p.pageDirectories d programOffset = Paging.taskDirectory m d programOffset) :
    p.userFrame = some (0x800000 + 0x400000 * d) := by
  have hentry : Paging.taskDirectory m d programOffset = userPage8MB + d * fourMB := if_pos rfl
  have hbits : (userPage8MB + d * fourMB) % 2 = 1 ∧ (userPage8MB + d * fourMB) / 128 % 2 = 1 := by
    rw [userPage8MB, fourMB]
    omega
  have hframe : (userPage8MB + d * fourMB) / fourMB * fourMB = 0x800000 + 0x400000 * d := by
    rw [userPage8MB, fourMB]
    omega
  simp only [Paging.userFrame, hcr3, he, hentry]
  rw [if_pos hbits, hframe]

/-- `create_vidmap` leaves the page of the process where it is. -/
theorem userFrame_created (h : s.Sound σ) (hmap : s.Mapped m) (hlive : s.Live s.cur)
    {p : Paging} (hp : s.paging.createVidmap m (s.cur - 1) = .ok p) :
    p.userFrame = some (0x800000 + 0x400000 * (s.cur - 1)) := by
  obtain ⟨hpos, hlt, -, hcr3⟩ := h.directory hlive
  refine userFrame_task (m := m) ?_ ?_
  · rw [Paging.createVidmap_eq m s.paging hlt] at hp
    rw [← Except.ok.inj hp, ← hcr3]
    rfl
  · rw [Paging.createVidmap_entry hlt hp (by decide)]
    exact (hmap.task s.cur hpos h.toWf.cur_le hlive).entry _ (by decide) (by decide)

/-- The state after a successful call for the pointer at `v`. -/
def withVideo (s : Kernel) (p : Paging) (v : ℕ) : Kernel :=
  { s with
    paging := p
    phys := memcpy s.phys (0x800000 + 0x400000 * (s.cur - 1) + (v - pageVirtAddr))
      (fun i => (vidmapAddr >>> (8 * i)).toUInt8) 4 }

/-- `vidmap` behind its range test: the tables are changed, then the pointer is stored
if it fits. -/
theorem vidmap_admitted (h : s.Sound σ) (hmap : s.Mapped m) (hlive : s.Live s.cur)
    (hlo : pageVirtAddr ≤ v) (hhi : v ≤ pageVirtAddr + pageSize4MB) :
    ∃ p, s.paging.createVidmap m (s.cur - 1) = .ok p ∧
      s.vidmap m v = if v + 4 ≤ pageVirtAddr + pageSize4MB then .ok (0, s.withVideo p v)
        else .error .fault := by
  obtain ⟨-, hlt, hdec, -⟩ := h.directory hlive
  obtain ⟨p, hp⟩ : ∃ p, s.paging.createVidmap m (s.cur - 1) = .ok p :=
    ⟨_, Paging.createVidmap_eq m s.paging hlt⟩
  have hframe := userFrame_created h hmap hlive hp
  refine ⟨p, hp, ?_⟩
  rw [vidmap, if_neg (by rw [pageVirtAddr] at hlo; omega), if_neg (by omega), hdec, hp]
  simp only [storeUser, bind, Except.bind, hframe]
  by_cases hfits : v + 4 ≤ pageVirtAddr + pageSize4MB
  · rw [if_pos ⟨hlo, hfits⟩, if_pos hfits]
    rfl
  · rw [if_neg (fun hboth => hfits hboth.2), if_neg hfits]

/-- The tables behind the call show the video page in its region. -/
theorem videoRegion_created (hm : m.Linked) (h : s.Sound σ) (hmap : s.Mapped m)
    (hlive : s.Live s.cur) {p : Paging} (hp : s.paging.createVidmap m (s.cur - 1) = .ok p)
    (hs' : s'.paging = p) : VideoRegion m s s' vidmapAddr := by
  obtain ⟨hpos, hlt, -, -⟩ := h.directory hlive
  have hregion : dirIndex vidmapAddr = vidmapOffset := by decide
  refine ⟨fun k hk => ?_, fun w hw hidx hout => ?_, fun w hw hidx i h1 h6 hl => ?_⟩
  · have hdir : dirIndex (vidmapAddr + k) = vidmapOffset := by
      rw [dirIndex, vidmapAddr, vidmapOffset]
      omega
    have htab : tableIndex (vidmapAddr + k) = 0xB8 := by
      rw [tableIndex, vidmapAddr]
      omega
    have hoff : (vidmapAddr + k) % 2 ^ 12 = k := by
      rw [vidmapAddr]
      omega
    rw [userTranslate, hs', Paging.translate_video hm hlt hp hdir, if_pos htab, hoff,
      videoPage]
  · rw [hregion] at hidx
    rw [userTranslate, hs', Paging.translate_video hm hlt hp hidx, if_neg]
    rw [dirIndex, vidmapOffset] at hidx
    rw [vidmapAddr] at hout
    rw [tableIndex]
    omega
  · rw [hregion] at hidx
    have htask := hmap.task i h1 h6 hl
    rw [userTranslate, userTranslate, hs']
    exact Paging.translate_task_eq hm.toAligned htask (htask.createVidmap hlt hp) hmap.low
      (Paging.createVidmap_low hmap.low hlt hp) hw hidx

theorem videoMapped_withVideo (hm : m.Linked) (h : s.Sound σ) (hmap : s.Mapped m)
    (hlive : s.Live s.cur) {p : Paging} (hp : s.paging.createVidmap m (s.cur - 1) = .ok p)
    (hv : InUserPage v) : VideoMapped m s (s.withVideo p v) v := by
  have hframe := userFrame_created h hmap hlive hp
  refine ⟨hv, vidmapAddr, by decide, fun i hi => ?_,
    videoRegion_created hm h hmap hlive hp rfl⟩
  have hlo := hv.1
  have hoff : 0x800000 + 0x400000 * (s.cur - 1) + (v + i - pageVirtAddr) -
      (0x800000 + 0x400000 * (s.cur - 1) + (v - pageVirtAddr)) = i := by omega
  have hbyte : (s.withVideo p v).phys (0x800000 + 0x400000 * (s.cur - 1) + (v + i - pageVirtAddr)) =
      (vidmapAddr >>> (8 * i)).toUInt8 := by
    simp only [withVideo, memcpy]
    rw [if_pos (by omega), hoff]
  have hpaging : (s.withVideo p v).paging = p := rfl
  rw [userByte, hpaging, hframe, Option.map_some, hbyte]

/-- In every state of every run with a live current process, and for every address of
the pointer: `vidmap` keeps its contract exactly if it is not one of the four
addresses that pass the range test and leave no room for the pointer. -/
theorem vidmapContract_iff (hm : m.Linked) (hr : Reachable m ByLive s) (hlive : s.Live s.cur)
    (v : ℕ) : VidmapContract m s v ↔ ¬ (0x83FFFFD ≤ v ∧ v ≤ 0x8400000) := by
  obtain ⟨σ, hs⟩ := hr.sound
  have hmap := hr.mapped
  by_cases hin : pageVirtAddr ≤ v ∧ v ≤ pageVirtAddr + pageSize4MB
  · obtain ⟨p, hp, hvid⟩ := vidmap_admitted hs hmap hlive hin.1 hin.2
    by_cases hfits : v + 4 ≤ pageVirtAddr + pageSize4MB
    · rw [if_pos hfits] at hvid
      have hpage : InUserPage v := ⟨hin.1, hfits⟩
      refine iff_of_true ⟨Or.inr ⟨_, hvid, videoMapped_withVideo hm hs hmap hlive hp hpage⟩,
        fun _ => ⟨_, hvid⟩⟩ ?_
      rw [pageVirtAddr, pageSize4MB] at hfits
      omega
    · rw [if_neg hfits] at hvid
      refine iff_of_false (fun hc => ?_) ?_
      · rcases hc.outcome with hrefused | ⟨s', hok, -⟩
        · rw [hvid] at hrefused
          cases hrefused
        · rw [hvid] at hok
          cases hok
      · rw [pageVirtAddr, pageSize4MB] at hfits hin
        omega
  · have hrefused : s.vidmap m v = .ok (-1, s) := by
      rw [vidmap]
      by_cases hnull : v = 0
      · rw [if_pos hnull]
        rfl
      · rw [if_neg hnull, if_pos (by omega)]
        rfl
    refine iff_of_true ⟨Or.inl hrefused, fun hpage => ?_⟩ ?_
    · have hle := hpage.2
      exact absurd ⟨hpage.1, by omega⟩ hin
    · rw [pageVirtAddr, pageSize4MB] at hin
      omega

/-- The first shell asks for the pointer at the start of its page. -/
theorem shell_vidmapContract : ∃ s, Reachable shellMachine ByLive s ∧
    VidmapContract shellMachine s 0x8000000 := by
  obtain ⟨s, hs, hinst, -⟩ := shellMachine_boots ByLive
  exact ⟨s, hs, (vidmapContract_iff ⟨⟨by decide, by decide⟩, by decide⟩ hs hinst.live
    0x8000000).mpr (by decide)⟩

/-- The first address behind the page passes the test. The tables are changed, and the
store faults. -/
theorem vidmap_page_end : ∃ s, Reachable shellMachine ByLive s ∧ s.Live s.cur ∧
    ¬ VidmapContract shellMachine s 0x8400000 := by
  obtain ⟨s, hs, hinst, -⟩ := shellMachine_boots ByLive
  obtain ⟨σ, hsound⟩ := hs.sound
  obtain ⟨p, -, hvid⟩ := vidmap_admitted (v := 0x8400000) hsound hs.mapped hinst.live
    (by decide) (by decide)
  rw [if_neg (by decide)] at hvid
  refine ⟨s, hs, hinst.live, fun hc => ?_⟩
  rcases hc.outcome with hrefused | ⟨s', hok, -⟩
  · rw [hvid] at hrefused
    cases hrefused
  · rw [hvid] at hok
    cases hok

end Kernel
end KudOS
