import KudOS.LsRuns
import KudOS.ShellRuns
import KudOS.SlotReuse
import KudOS.SystemTests

/-!
# Runs of the tests of the system calls

The lines of a test are first run on what the test expects to find: which descriptors are
open, and how many calls of `open` have failed. A kernel that is as expected answers every
call as the test wants it, so a test whose lines are accepted there prints that it passed.
-/

namespace KudOS.User

open Kernel Sessions

variable {m : Machine} {link : PcbLink} {s s' s₀ : Kernel} {q : Call} {r : Reply}
  {σ : TerminalId → List ℕ} {disturbs : Kernel → Kernel → Prop}

/-! ## What a test expects -/

/-- The descriptors from `first` on and before `next` are open. -/
structure Expected where
  first : ℕ
  next : ℕ
  fails : ℕ
  deriving DecidableEq

def Expected.initial : Expected := ⟨2, 2, 0⟩

/-- One of the descriptors from 2 on that is not open. -/
abbrev Expected.Closed (x : Expected) (fd : ℤ) : Prop :=
  2 ≤ fd ∧ fd ≤ 7 ∧ ¬ (x.first ≤ fd ∧ fd < x.next)

def Expected.Holds (x : Expected) (s : Kernel) : Prop :=
  ∀ fd : ℕ, 2 ≤ fd → fd ≤ 7 → (s.InUse fd ↔ x.first ≤ fd ∧ fd < x.next)

/-- The name that `err_open_lots` opens, and those that `err_open` takes to be missing. -/
def dotName : List UInt8 := literal "."
def wrongNames : List (List UInt8) := [literal "helloo", literal "shel", literal ""]

/-- The calls that have to fail. -/
def Check.refused (x : Expected) : Check → Bool
  | .read fd => fd < 0 ∨ 7 < fd ∨ fd = 1 ∨ x.Closed fd
  | .write fd => fd ≤ 0 ∨ 7 < fd ∨ x.Closed fd
  | .close fd => fd < 2 ∨ 7 < fd ∨ x.Closed fd
  | .open name => name ∈ wrongNames
  | .vidmap screenStart => screenStart < pageVirtAddr
  | .number num => ¬ (1 ≤ num.toNat ∧ num.toNat ≤ 10)

/-- What is expected behind a line, if the line is in order. -/
def TestLine.after (x : Expected) : TestLine → Option Expected
  | .check c _ => if c.refused x then some x else none
  | .count name =>
    if name = dotName ∧ x.first = 2 ∧ 2 ≤ x.next then
      if x.next ≤ 7 then some { x with next := x.next + 1 }
      else some { x with fails := x.fails + 1 }
    else none
  | .close fd =>
    if fd = x.first ∧ 2 ≤ x.first ∧ x.first ≤ 7 ∧ x.first < x.next then
      some { x with first := x.first + 1 }
    else none
  | .verdict pass _ => if 0 ∉ pass then some x else none
  | .countVerdict pass _ =>
    if 0 ∉ pass ∧ x.fails = 1 ∧ x.next ≤ x.first then some .initial else none
  | .overall pass _ => if 0 ∉ pass then some x else none

/-- The lines are in order, and leave everything as it was. -/
def Accepted (x : Expected) (code : List TestLine) : Prop :=
  code.foldlM TestLine.after x = some .initial

theorem accepted_cons {x : Expected} {line : TestLine} {code : List TestLine} :
    Accepted x (line :: code) ↔ ∃ y, line.after x = some y ∧ Accepted y code := by
  rw [Accepted, List.foldlM_cons]
  exact Option.bind_eq_some_iff

/-- Every test is in order, and part of the whole. -/
theorem testsOf_accepted {select : ℤ} {code : List TestLine}
    (h : Syserr.testsOf select = some code) :
    Accepted .initial code ∧ code.length ≤ allTests.length := by
  unfold Accepted
  unfold Syserr.testsOf at h
  split at h <;> first
    | cases h; decide +kernel
    | cases h

/-! ## What the kernel answers -/

theorem Expected.Holds.not_inUse {x : Expected} (h : x.Holds s) {fd : ℤ} (hfd : x.Closed fd) :
    ∃ k : ℕ, fd = k ∧ k ≤ 7 ∧ ¬ s.InUse k := by
  obtain ⟨h2, h7, hno⟩ := hfd
  obtain ⟨k, rfl⟩ := Int.eq_ofNat_of_zero_le (a := fd) (by omega)
  refine ⟨k, rfl, by omega, fun hu => hno ?_⟩
  have hbounds := (h k (by omega) (by omega)).mp hu
  omega

theorem sysRead_refused (hrun : Running s) {x : Expected} (hx : x.Holds s) {fd : ℤ}
    (hfd : fd < 0 ∨ 7 < fd ∨ fd = 1 ∨ x.Closed fd) (n : ℤ) :
    s.sysRead m fd false n = .ok (-1, [], s) := by
  by_cases hclosed : x.Closed fd
  · obtain ⟨k, rfl, h7, hno⟩ := hx.not_inUse hclosed
    exact sysRead_unused hrun.table false n h7 hno
  rw [sysRead_eq, if_pos]
  rw [fdMaxIdx]
  rcases hfd with h | h | h | h
  · exact .inr (.inr (.inr (.inl h)))
  · exact .inr (.inr (.inl h))
  · exact .inr (.inr (.inr (.inr h)))
  · exact absurd h hclosed

theorem sysWrite_refused (hrun : Running s) {x : Expected} (hx : x.Holds s) {fd : ℤ}
    (hfd : fd ≤ 0 ∨ 7 < fd ∨ x.Closed fd) (buf : Option (ℕ → UInt8)) (n : ℤ) :
    s.sysWrite m fd buf n = .ok (-1, s) := by
  by_cases hclosed : x.Closed fd
  · obtain ⟨k, rfl, h7, hno⟩ := hx.not_inUse hclosed
    exact sysWrite_unused hrun.table buf n h7 hno
  cases buf with
  | none => exact sysWrite_null m s fd n
  | some b =>
    rw [sysWrite_eq, if_pos]
    rw [fdMaxIdx]
    rcases hfd with h | h | h
    · exact .inr (.inr h)
    · exact .inr (.inl h)
    · exact absurd h hclosed

theorem sysClose_refused_of (hrun : Running s) {x : Expected} (hx : x.Holds s) {fd : ℤ}
    (hfd : fd < 2 ∨ 7 < fd ∨ x.Closed fd) : s.sysClose m fd = .ok (-1, s) := by
  by_cases hout : fd < 0 ∨ 7 < fd
  · exact sysClose_outOfRange m s hout
  rcases hfd with h | h | h
  · obtain ⟨k, rfl⟩ := Int.eq_ofNat_of_zero_le (a := fd) (by omega)
    exact sysClose_refused m s (by omega) (Or.inl (by omega))
  · exact absurd (Or.inr h) hout
  · obtain ⟨k, rfl, h7, hno⟩ := hx.not_inUse h
    exact sysClose_refused m s h7 (Or.inr (flags_of_not_inUse hrun.table h7 hno))

theorem sysOpen_missing {fname : ℕ → UInt8} (h : ¬ m.image.Contains fname) :
    s.sysOpen m fname = (-1, s) := by
  rcases m.image.readDentryByName_cases fname with ⟨-, hd⟩ | ⟨i, hi, hmatch, -⟩
  · simp only [sysOpen, openFile, hd]
  · exact absurd ⟨i, hi, hmatch⟩ h

/-- A number for which there is no function. -/
theorem served_number {num : BitVec 32} (hnum : ¬ (1 ≤ num.toNat ∧ num.toNat ≤ 10)) :
    Served m link s (.number num) r s' ↔ r = ⟨-1, fun _ => 0⟩ ∧ s' = s := by
  constructor
  · intro h
    cases h with
    | @number callee k u u' hrun =>
      obtain ⟨n, w, hleft⟩ := @Gateway.handle_rejected callee u hnum
      have hsame := Assembly.run_unique syscallHandler syscallTable callee hrun hleft
      rw [(Prod.mk.inj hsame).1, Gateway.left_eax]
      exact ⟨rfl, rfl⟩
  · rintro ⟨rfl, hs⟩
    obtain ⟨n, w, hleft⟩ := @Gateway.handle_rejected (fun _ u => u) (Gateway.userCpu num) hnum
    have hserved : Served m link s (.number num) _ s := .number hleft
    rw [hs]
    rw [Gateway.left_eax] at hserved
    exact hserved

/-- Every call that has to fail does, and changes nothing. -/
theorem served_refused (hrun : Running s) {x : Expected} (hx : x.Holds s)
    (hwrong : ∀ name ∈ wrongNames, ¬ m.image.Contains (cString name)) {c : Check}
    (hc : c.refused x = true) (buf : ℕ → UInt8) :
    (∃ r s', Served m link s (c.call buf) r s') ∧
      ∀ r s', Served m link s (c.call buf) r s' → r.value = -1 ∧ s' = s := by
  cases c with
  | read fd =>
    have hread := sysRead_refused (m := m) hrun hx (of_decide_eq_true hc) 31
    refine ⟨⟨_, _, .read hread⟩, fun r s' hserved => ?_⟩
    obtain ⟨rfl, rfl⟩ := (served_read hread).mp hserved
    exact ⟨rfl, rfl⟩
  | write fd =>
    have hwrite := sysWrite_refused (m := m) hrun hx (of_decide_eq_true hc) (some buf) 31
    refine ⟨⟨_, _, .write hwrite⟩, fun r s' hserved => ?_⟩
    cases hserved with
    | write h =>
      cases h.symm.trans hwrite
      exact ⟨rfl, rfl⟩
  | close fd =>
    have hclose := sysClose_refused_of (m := m) hrun hx (of_decide_eq_true hc)
    refine ⟨⟨_, _, .close hclose⟩, fun r s' hserved => ?_⟩
    cases hserved with
    | close h =>
      cases h.symm.trans hclose
      exact ⟨rfl, rfl⟩
  | «open» name =>
    have hopen := sysOpen_missing (s := s) (hwrong name (of_decide_eq_true hc))
    refine ⟨⟨_, _, served_open.mpr ⟨rfl, rfl⟩⟩, fun r s' hserved => ?_⟩
    obtain ⟨rfl, rfl⟩ := served_open.mp hserved
    rw [hopen]
    exact ⟨rfl, rfl⟩
  | vidmap screenStart =>
    have hvidmap : s.vidmap m screenStart = .ok (-1, s) := by
      unfold vidmap
      split
      · rfl
      · rw [if_pos (Or.inl (of_decide_eq_true hc))]
        rfl
    refine ⟨⟨_, _, .vidmap hvidmap⟩, fun r s' hserved => ?_⟩
    cases hserved with
    | vidmap h =>
      cases h.symm.trans hvidmap
      exact ⟨rfl, rfl⟩
  | number num =>
    have hnum := of_decide_eq_true hc
    refine ⟨⟨_, _, (served_number hnum).mpr ⟨rfl, rfl⟩⟩, fun r s' hserved => ?_⟩
    obtain ⟨rfl, rfl⟩ := (served_number hnum).mp hserved
    exact ⟨rfl, rfl⟩

theorem sysOpen_next (himg : m.image.TypesOk) (hrun : Running s) {fname : ℕ → UInt8}
    (hname : m.image.Contains fname) {x : Expected} (hx : x.Holds s) (h2 : x.first = 2)
    (hnext : 2 ≤ x.next) (h7 : x.next ≤ 7) :
    (s.sysOpen m fname).1 = x.next ∧
      Expected.Holds { x with next := x.next + 1 } (s.sysOpen m fname).2 := by
  have hfree : ¬ s.InUse x.next := fun hu => absurd ((hx _ hnext h7).mp hu).2 (Nat.lt_irrefl _)
  have hleast : ∀ j, 2 ≤ j → j < x.next → s.InUse j := fun j hj hlt =>
    (hx j hj (by omega)).mpr ⟨by omega, hlt⟩
  obtain ⟨i, hi, -, hopen⟩ := sysOpen_found himg hrun.table hname hnext h7 hfree hleast
  rw [hopen]
  refine ⟨rfl, fun fd hfd hfd' => ?_⟩
  rw [InUse, withFiles_files]
  by_cases heq : fd = x.next
  · rw [heq, Function.update_self]
    exact iff_of_true (openedFd_spec _ _).1 ⟨h2 ▸ hnext, Nat.lt_succ_self _⟩
  · rw [Function.update_of_ne heq]
    refine (hx fd hfd hfd').trans ?_
    dsimp only
    omega

/-- Seven calls of `open` are one too many. -/
theorem sysOpen_full (himg : m.image.TypesOk) (hrun : Running s) (fname : ℕ → UInt8)
    {x : Expected} (hx : x.Holds s) (h2 : x.first = 2) (h7 : 7 < x.next) :
    (s.sysOpen m fname).1 = -1 ∧ x.Holds (s.sysOpen m fname).2 := by
  have hfull : ∀ fd, 2 ≤ fd → fd ≤ 7 → s.InUse fd := fun fd hfd hfd' =>
    (hx fd hfd hfd').mpr ⟨by omega, by omega⟩
  have hr := ((sysOpen_refused_iff himg hrun.table fname).mpr (Or.inr hfull)).1
  have hop : FileOp.apply m s (.open fname) = .ok (-1, (s.sysOpen m fname).2) :=
    congrArg Except.ok (Prod.ext hr rfl)
  have hothers := ((fdLaw_of_table hrun.table hrun.programId).others
    (.open fname) _ _ trivial hop).2.2
  refine ⟨hr, fun fd hfd hfd' => ?_⟩
  have hsame : (s.sysOpen m fname).2.files fd = s.files fd :=
    hothers fd fun (h : (-1 : ℤ) = fd) => by omega
  rw [InUse, hsame]
  exact hx fd hfd hfd'

theorem sysClose_first (hrun : Running s) {x : Expected} (hx : x.Holds s) (h2 : 2 ≤ x.first)
    (h7 : x.first ≤ 7) (hlt : x.first < x.next) :
    ∃ s', s.sysClose m x.first = .ok (0, s') ∧
      Expected.Holds { x with first := x.first + 1 } s' := by
  have hu : s.InUse x.first := (hx _ h2 h7).mpr ⟨le_rfl, hlt⟩
  refine ⟨_, sysClose_open m s h2 h7 (hrun.table.slot _ h2 h7) hu, fun fd hfd hfd' => ?_⟩
  rw [InUse, withFiles_files]
  by_cases heq : fd = x.first
  · rw [heq, Function.update_self, (closedFd_free _).2]
    exact iff_of_false (by decide) fun h => Nat.lt_irrefl _ h.1
  · rw [Function.update_of_ne heq]
    refine (hx fd hfd hfd').trans ?_
    dsimp only
    omega

/-! ## One line of a test -/

/-- What the tests print when they pass. -/
def passTexts (code : List TestLine) : List (List UInt8) :=
  code.filterMap fun line => match line with
    | .verdict pass _ => some pass
    | .countVerdict pass _ => some pass
    | .overall pass _ => some pass
    | _ => none

/-- Nothing has failed but the calls of `open` that had to. -/
structure TestVars.Passing (v : TestVars) (x : Expected) : Prop where
  fail : v.fail = 0
  total : v.total = 0
  cnt : v.cnt = x.fails

/-- The file system in which the tests run, and the process. -/
structure Syserr.Setup (m : Machine) (σ : TerminalId → List ℕ) (s₀ : Kernel) : Prop where
  sound : s₀.Sound σ
  live : s₀.Live s₀.cur
  types : m.image.TypesOk
  dot : m.image.Contains (cString dotName)
  wrong : ∀ name ∈ wrongNames, ¬ m.image.Contains (cString name)

theorem texts_silent {t : List (Call × Reply)} (hq : q.toTerminal = none) (r : Reply) :
    texts (t ++ [(q, r)]) = texts t := by
  rw [texts, writes_append, hq, Option.toList_none, List.append_nil]
  rfl

theorem refused_toTerminal {x : Expected} {c : Check} (hc : c.refused x = true)
    (buf : ℕ → UInt8) : (c.call buf).toTerminal = none := by
  cases c with
  | write fd =>
    have hfd := of_decide_eq_true hc
    refine if_neg ?_
    rintro rfl
    rcases hfd with h | h | h
    · exact absurd h (by decide)
    · exact absurd h (by decide)
    · exact absurd h.1 (by decide)
  | _ => rfl

/-- The call is served, and the test goes on as expected with the text printed. -/
def Carried (m : Machine) (link : PcbLink) (s : Kernel) (q : Call) (next : Reply → Syserr)
    (code : List TestLine) (y : Expected) (printed : List (List UInt8)) : Prop :=
  (∃ r s', Served m link s q r s') ∧ ∀ r s', Served m link s q r s' →
    (∃ v, next r = .lines code v ∧ v.Passing y) ∧ y.Holds s' ∧
      ∀ t, texts (t ++ [(q, r)]) = texts t ++ printed

variable {x y : Expected} {v : TestVars} {code : List TestLine} {next : Reply → Syserr}

theorem carried_check (hset : Syserr.Setup m σ s₀) (hrun : Running s) (hx : x.Holds s)
    {c : Check} (hc : c.refused x = true) {buf : ℕ → UInt8}
    (hnext : ∀ r : Reply, r.value = -1 → ∃ v, next r = .lines code v ∧ v.Passing x) :
    Carried m link s (c.call buf) next code x [] := by
  obtain ⟨hex, hall⟩ := served_refused hrun hx hset.wrong hc buf
  refine ⟨hex, fun r s' hserved => ?_⟩
  obtain ⟨hval, rfl⟩ := hall r s' hserved
  refine ⟨hnext r hval, hx, fun t => ?_⟩
  rw [texts_silent (refused_toTerminal hc _), List.append_nil]

theorem carried_count (hset : Syserr.Setup m σ s₀) (hrun : Running s) (hx : x.Holds s)
    (hv : v.Passing x) (hline : TestLine.after x (.count dotName) = some y) :
    Carried m link s (.open (cString dotName)) (fun r =>
      .lines code { v with cnt := if -1 = r.value then v.cnt + 1 else v.cnt }) code y [] := by
  obtain ⟨⟨-, h2, hnext⟩, hxy⟩ := Option.ite_none_right_eq_some.mp hline
  refine ⟨⟨_, _, served_open.mpr ⟨rfl, rfl⟩⟩, fun r s' hserved => ?_⟩
  obtain ⟨rfl, rfl⟩ := served_open.mp hserved
  have htexts : ∀ t, texts (t ++ [(Call.open (cString dotName),
      (⟨(s.sysOpen m (cString dotName)).1, cString dotName⟩ : Reply))]) = texts t ++ [] :=
    fun t => (texts_silent rfl _).trans (List.append_nil _).symm
  by_cases h7 : x.next ≤ 7
  · rw [if_pos h7] at hxy
    cases hxy
    obtain ⟨hval, hholds⟩ := sysOpen_next hset.types hrun hset.dot hx h2 hnext h7
    refine ⟨⟨_, rfl, hv.fail, hv.total, ?_⟩, hholds, htexts⟩
    dsimp only
    rw [hval, if_neg (by omega)]
    exact hv.cnt
  · rw [if_neg h7] at hxy
    cases hxy
    obtain ⟨hval, hholds⟩ := sysOpen_full hset.types hrun (cString dotName) hx h2 (by omega)
    refine ⟨⟨_, rfl, hv.fail, hv.total, ?_⟩, hholds, htexts⟩
    dsimp only
    rw [hval, if_pos rfl, hv.cnt]
    rfl

theorem carried_close (hrun : Running s) (hx : x.Holds s) (hv : v.Passing x) {fd : ℤ}
    (hline : TestLine.after x (.close fd) = some y) :
    Carried m link s (.close fd) (fun _ => .lines code v) code y [] := by
  obtain ⟨⟨rfl, h2, h7, hlt⟩, hxy⟩ := Option.ite_none_right_eq_some.mp hline
  cases hxy
  obtain ⟨s₁, hclose, hholds⟩ := sysClose_first (m := m) hrun hx h2 h7 hlt
  refine ⟨⟨_, _, .close hclose⟩, fun r s' hserved => ?_⟩
  cases hserved with
  | close h =>
    cases h.symm.trans hclose
    refine ⟨⟨_, rfl, hv.fail, hv.total, hv.cnt⟩, hholds, fun t => ?_⟩
    rw [texts_silent rfl, List.append_nil]

theorem served_puts (hrun : Running s) (m : Machine) (link : PcbLink) (text : List UInt8) :
    (∃ r s', Served m link s (puts text) r s') ∧
      ∀ r s', Served m link s (puts text) r s' → ∃ y, s' = { s with tty := y } := by
  refine ⟨⟨_, _, (served_write hrun).mpr ⟨rfl, rfl⟩⟩, fun r s' hserved => ?_⟩
  exact ⟨_, ((served_write hrun).mp hserved).2⟩

theorem carried_puts (hrun : Running s) (hy : y.Holds s) {pass : List UInt8} (hpass : 0 ∉ pass)
    (hnext : ∀ r, ∃ v, next r = .lines code v ∧ v.Passing y) :
    Carried m link s (puts pass) next code y [pass] := by
  obtain ⟨hex, hall⟩ := served_puts hrun m link pass
  refine ⟨hex, fun r s' hserved => ?_⟩
  obtain ⟨z, rfl⟩ := hall r s' hserved
  exact ⟨hnext r, hy, fun t => texts_puts hpass t r⟩

theorem line_carried (hset : Syserr.Setup m σ s₀) (hrun : Running s) (hx : x.Holds s)
    {line : TestLine} (hline : line.after x = some y) (hv : v.Passing x)
    (hact : Syserr.act (.lines (line :: code) v) = .call q next) :
    Carried m link s q next code y (passTexts [line]) := by
  cases line with
  | check c text =>
    cases hact
    obtain ⟨hc, hxy⟩ := Option.ite_none_right_eq_some.mp hline
    cases hxy
    exact carried_check hset hrun hx hc fun r hval =>
      ⟨_, if_neg (not_not_intro hval.symm), hv.fail, hv.total, hv.cnt⟩
  | count name =>
    cases hact
    obtain ⟨⟨rfl, -⟩, -⟩ := Option.ite_none_right_eq_some.mp hline
    exact carried_count hset hrun hx hv hline
  | close fd =>
    cases hact
    exact carried_close hrun hx hv hline
  | verdict pass fail =>
    cases hact
    obtain ⟨hpass, hxy⟩ := Option.ite_none_right_eq_some.mp hline
    cases hxy
    rw [if_neg (not_not_intro hv.fail)]
    refine carried_puts hrun hx hpass fun r => ⟨_, rfl, rfl, ?_, hv.cnt⟩
    dsimp only
    rw [hv.total, hv.fail]
    rfl
  | countVerdict pass fail =>
    cases hact
    obtain ⟨⟨hpass, hfails, hnone⟩, hxy⟩ := Option.ite_none_right_eq_some.mp hline
    cases hxy
    have hone : v.cnt = 1 := by
      rw [hv.cnt, hfails]
      rfl
    have hinitial : Expected.initial.Holds s := fun fd h2 h7 => by
      rw [hx fd h2 h7]
      change _ ↔ 2 ≤ fd ∧ fd < 2
      omega
    rw [if_pos hone]
    refine carried_puts hrun hinitial hpass fun r => ⟨_, rfl, hv.fail, ?_, rfl⟩
    dsimp only
    rw [if_pos hone, hv.total]
    rfl
  | overall pass fail =>
    cases hact
    obtain ⟨hpass, hxy⟩ := Option.ite_none_right_eq_some.mp hline
    cases hxy
    rw [if_neg (not_not_intro hv.total)]
    exact carried_puts hrun hx hpass fun r => ⟨_, rfl, hv⟩

/-! ## Whole runs -/

/-- What is printed for a line that was typed, behind the question. -/
def verdicts (l : List UInt8) : List (List UInt8) :=
  match Syserr.testsOf ((cString (l ++ [newlineChar]) 0).toNat - 0x30) with
  | some code => passTexts code
  | none => [Syserr.invalidTest]

inductive Syserr.At : Config Syserr Call Reply Kernel → Prop where
  | ask {s : Kernel} (buf junk) (hx : Expected.initial.Holds s) : Syserr.At ⟨.ask buf junk, s, []⟩
  | readChoice {s t} (buf junk) (hx : Expected.initial.Holds s) (hn : t.length = 1)
      (hl : linesRead t = []) (ht : texts t = [question]) : Syserr.At ⟨.readChoice buf junk, s, t⟩
  | lines {s t x code v l} (hx : x.Holds s) (hcode : Accepted x code) (hv : v.Passing x)
      (hn : t.length + code.length ≤ allTests.length + 2) (hl : (linesRead t).head? = some l)
      (ht : texts t ++ passTexts code = question :: verdicts l) :
      Syserr.At ⟨.lines code v, s, t⟩
  | last {s t l} (hx : Expected.initial.Holds s) (hn : t.length = 2)
      (hl : (linesRead t).head? = some l)
      (ht : texts t ++ [invalidTest] = question :: verdicts l) :
      Syserr.At ⟨.last invalidTest 0, s, t⟩
  | ended {s t l} (hx : Expected.initial.Holds s) (hn : t.length = 3)
      (hl : (linesRead t).head? = some l) (ht : texts t = question :: verdicts l) :
      Syserr.At ⟨.ended 0, s, t⟩

theorem Syserr.At.withTty {c : Config Syserr Call Reply Kernel} (h : Syserr.At c) (y : Tty) :
    Syserr.At { c with state := { c.state with tty := y } } := by
  cases h with
  | ask buf junk hx => exact .ask buf junk hx
  | readChoice buf junk hx hn hl ht => exact .readChoice buf junk hx hn hl ht
  | lines hx hcode hv hn hl ht => exact .lines hx hcode hv hn hl ht
  | last hx hn hl ht => exact .last hx hn hl ht
  | ended hx hn hl ht => exact .ended hx hn hl ht

theorem linesRead_head {t : List (Call × Reply)} {l : List UInt8}
    (h : (linesRead t).head? = some l) (t' : List (Call × Reply)) :
    (linesRead (t ++ t')).head? = some l := by
  rw [linesRead_append, List.head?_append, h, Option.some_or]

theorem Expected.Holds.read_stdin (hx : x.Holds s) (hrun : Running s)
    {buf : ℕ → UInt8} {n : ℤ} (hserved : Served m link s (.read 0 buf n) r s') : x.Holds s' := by
  cases hserved with
  | read hread =>
    have hop : FileOp.apply m s (.read 0 false n) = .ok (_, s') := bind_eq_ok.mpr ⟨_, hread, rfl⟩
    have hothers := ((fdLaw_of_table hrun.table hrun.programId).others (.read 0 false n) _ _
      ⟨le_rfl, by decide⟩ hop).2.2
    intro fd h2 h7
    rw [InUse, hothers fd fun (h : (0 : ℤ) = fd) => by omega]
    exact hx fd h2 h7

/-- What is selected depends on the line alone. -/
theorem choose_typed (buf junk : ℕ → UInt8) (l : List UInt8) :
    Syserr.choose (memcpy buf 0 (cString (l ++ [newlineChar])) (l.length + 1)) junk =
      Syserr.choose (cString (l ++ [newlineChar])) junk := by
  have hfirst : memcpy buf 0 (cString (l ++ [newlineChar])) (l.length + 1) 0 =
      cString (l ++ [newlineChar]) 0 := if_pos (by omega)
  rw [Syserr.choose, Syserr.choose, hfirst]

theorem Syserr.At.call (hset : Syserr.Setup m σ s₀) {c : Config Syserr Call Reply Kernel}
    (hrun : Running c.state) (h : Syserr.At c) (hact : Syserr.act c.loc = .call q next)
    (hserved : Served m link c.state q r s') :
    Syserr.At ⟨next r, s', c.trace ++ [(q, r)]⟩ := by
  have hcount : (c.trace ++ [(q, r)]).length = c.trace.length + 1 := by
    rw [List.length_append, List.length_singleton]
  cases h with
  | ask buf junk hx =>
    cases hact
    obtain ⟨y, rfl⟩ := (served_puts hrun m link question).2 r s' hserved
    exact .readChoice buf junk hx hcount rfl (texts_puts (by decide +kernel) [] r)
  | @readChoice s t buf junk hx hn hl ht =>
    cases hact
    have hstate := hx.read_stdin hrun hserved
    obtain ⟨l, -, -, -, rfl⟩ := served_stdin hrun hserved
    obtain ⟨hlines, -, htexts, -⟩ := read_line t buf 127 l
    rw [hl, List.nil_append] at hlines
    rw [ht] at htexts
    have hhead := congrArg List.head? hlines
    dsimp only at hcount ⊢
    rw [if_neg (by omega), choose_typed, Syserr.choose]
    cases htests : Syserr.testsOf ((cString (l ++ [newlineChar]) 0).toNat - 0x30) with
    | none =>
      refine .last hstate (by rw [hcount, hn]) hhead ?_
      rw [htexts, verdicts, htests]
      rfl
    | some code =>
      obtain ⟨hcode, hlen⟩ := testsOf_accepted htests
      refine .lines hstate hcode ⟨rfl, rfl, rfl⟩ ?_ hhead ?_
      · rw [hcount, hn]
        omega
      · rw [htexts, verdicts, htests]
        rfl
  | @lines s t x code v l hx hcode hv hn hl ht =>
    cases code with
    | nil => cases hact
    | cons line code =>
      obtain ⟨y, hline, hrest⟩ := accepted_cons.mp hcode
      obtain ⟨⟨v', hnext, hv'⟩, hy, htexts⟩ :=
        (line_carried hset hrun hx hline hv hact).2 r s' hserved
      rw [hnext]
      refine .lines hy hrest hv' ?_ (linesRead_head hl _) ?_
      · rw [List.length_cons] at hn
        rw [hcount]
        dsimp only
        omega
      · have hsplit : passTexts (line :: code) = passTexts [line] ++ passTexts code :=
          List.filterMap_append (l := [line])
        rw [htexts, List.append_assoc, ← hsplit, ht]
  | @last s t l hx hn hl ht =>
    cases hact
    obtain ⟨y, rfl⟩ := (served_puts hrun m link invalidTest).2 r s' hserved
    refine .ended hx (by rw [hcount, hn]) (linesRead_head hl _) ?_
    rw [texts_puts (by decide +kernel), ht]
  | ended hx hn hl ht => cases hact

/-- Only the line is waited for. -/
theorem Syserr.At.answered (link : PcbLink) (hset : Syserr.Setup m σ s₀)
    {c : Config Syserr Call Reply Kernel}
    (hrun : Running c.state) (h : Syserr.At c) (hact : Syserr.act c.loc = .call q next) :
    (∃ buf, q = .read 0 buf 127) ∨ ∃ r s', Served m link c.state q r s' := by
  cases h with
  | ask buf junk hx =>
    cases hact
    exact Or.inr (served_puts hrun m link question).1
  | readChoice buf junk hx hn hl ht =>
    cases hact
    exact Or.inl ⟨buf, rfl⟩
  | @lines s t x code v l hx hcode hv hn hl ht =>
    cases code with
    | nil => cases hact
    | cons line code =>
      obtain ⟨y, hline, -⟩ := accepted_cons.mp hcode
      exact Or.inr (line_carried hset hrun hx hline hv hact).1
  | last hx hn hl ht =>
    cases hact
    exact Or.inr (served_puts hrun m link invalidTest).1
  | ended hx hn hl ht => cases hact

structure Syserr.Inv (m : Machine) (s₀ : Kernel) (c : Config Syserr Call Reply Kernel) : Prop where
  activity : Activity m s₀ c.state
  place : Syserr.At c

theorem Syserr.keeps (hset : Syserr.Setup m σ s₀) (hd : ∀ s s', disturbs s s' → Interrupted s s') :
    (session m link Syserr.act disturbs).Keeps (Syserr.Inv m s₀) where
  interference h hi := by
    refine ⟨h.activity.trans (hd _ _ hi).activity, ?_⟩
    obtain ⟨y, -, rfl⟩ := hd _ _ hi
    exact h.place.withTty y
  call h hact hserved :=
    ⟨h.activity.trans hserved.activity,
      h.place.call hset (running_of_activity hset.sound hset.live h.activity) hact hserved⟩

/-- What holds in every run of the tests from `s₀`. -/
structure SyserrLaw (m : Machine) (link : PcbLink) (s₀ : Kernel)
    (c : Config Syserr Call Reply Kernel) : Prop where
  /-- After the question only that every test passed is printed. -/
  printed : texts c.trace <+: [Syserr.question] ∨ ∃ l, (linesRead c.trace).head? = some l ∧
    texts c.trace <+: Syserr.question :: verdicts l
  answered : ∀ q next, Syserr.act c.loc = .call q next →
    (∃ buf, q = .read 0 buf 127) ∨ ∃ r s', Served m link c.state q r s'
  calls : c.trace.length ≤ allTests.length + 2
  exit : ∀ status, Syserr.act c.loc = .exit status → status = 0 ∧
    (∃ l, (linesRead c.trace).head? = some l ∧
      texts c.trace = Syserr.question :: verdicts l) ∧
    ∀ fd, 2 ≤ fd → fd ≤ 7 → ¬ c.state.InUse fd
  keeps : s₀.Keeps c.state

theorem Expected.Holds.none_open (h : Expected.initial.Holds s) :
    ∀ fd, 2 ≤ fd → fd ≤ 7 → ¬ s.InUse fd := by
  intro fd h2 h7 hu
  have hbounds : 2 ≤ fd ∧ fd < 2 := (h fd h2 h7).mp hu
  omega

theorem Syserr.Inv.law (hset : Syserr.Setup m σ s₀) {c : Config Syserr Call Reply Kernel}
    (h : Syserr.Inv m s₀ c) : SyserrLaw m link s₀ c := by
  obtain ⟨hactivity, hplace⟩ := h
  have hrun := running_of_activity hset.sound hset.live hactivity
  have hkeeps := (hactivity.keeps σ hset.sound hset.live).1
  have hanswered := fun q next (hact : Syserr.act c.loc = .call q next) =>
    hplace.answered link hset hrun hact
  have hall : 1 ≤ allTests.length := by decide +kernel
  cases hplace with
  | ask buf junk hx =>
    exact ⟨.inl List.nil_prefix, hanswered, Nat.zero_le _, nofun, hkeeps⟩
  | readChoice buf junk hx hn hl ht =>
    exact ⟨.inl (ht ▸ List.prefix_rfl), hanswered, hn.le.trans (by omega), nofun, hkeeps⟩
  | @lines s t x code v l hx hcode hv hn hl ht =>
    refine ⟨.inr ⟨l, hl, ⟨_, ht⟩⟩, hanswered, Nat.le_of_add_right_le hn, fun status hact => ?_,
      hkeeps⟩
    cases code with
    | nil =>
      cases hact
      have hinitial : Expected.initial = x := (Option.some.inj hcode).symm
      refine ⟨hv.total, ⟨l, hl, ?_⟩, (hinitial ▸ hx : Expected.initial.Holds s).none_open⟩
      rwa [show passTexts [] = [] from rfl, List.append_nil] at ht
    | cons line code => cases line <;> cases hact
  | last hx hn hl ht =>
    exact ⟨.inr ⟨_, hl, ⟨_, ht⟩⟩, hanswered, hn.le.trans (by omega), nofun, hkeeps⟩
  | @ended s t l hx hn hl ht =>
    refine ⟨.inr ⟨l, hl, ht ▸ List.prefix_rfl⟩, hanswered, hn.le.trans (by omega),
      fun status hact => ?_, hkeeps⟩
    cases hact
    exact ⟨rfl, ⟨l, hl, ht⟩, hx.none_open⟩

/-- The kernel passes its tests: whichever test is chosen, the program prints that it passed
and returns 0 with all files closed. Interrupts neither switch the terminal nor halt the
program, and the file system holds a directory entry "." and none of the three names that
`err_open` tries. -/
theorem syserr_run (himg : m.image.TypesOk) (h : Reachable m ByLive s) {fr : StackFrame}
    {line : Option (List UInt8)} {entry : ℕ} {s₁ : Kernel}
    (hx : s.execute m fr line = .ok (.started entry, s₁))
    (hdot : m.image.Contains (cString dotName))
    (hwrong : ∀ name ∈ wrongNames, ¬ m.image.Contains (cString name))
    (hd : ∀ s s', disturbs s s' → Interrupted s s') (link : PcbLink) (buf junk : ℕ → UInt8)
    (c : Config Syserr Call Reply Kernel)
    (hr : (session m link Syserr.act disturbs).Run ⟨.ask buf junk, s₁, []⟩ c) :
    SyserrLaw m link s₁ c := by
  obtain ⟨σ, hs⟩ := h.sound
  have hresult := execute_cases hs.ready hx
  obtain ⟨hs₁, hlive₁⟩ := hs.started hresult
  have hset : Syserr.Setup m _ s₁ := ⟨hs₁, hlive₁, himg, hdot, hwrong⟩
  have hclean : Expected.initial.Holds s₁ := fun fd h2 h7 => by
    have hflags := ((hresult.fresh hs.toWf).others fd h2 h7).1
    rw [InUse, files, hflags]
    refine iff_of_false (by decide) fun hb => ?_
    have hlt : fd < 2 := hb.2
    omega
  have hkept : (session m link Syserr.act disturbs).Keeps (Syserr.Inv m s₁) :=
    Syserr.keeps hset hd
  exact (hkept.run hr ⟨.done s₁, .ask buf junk hclean⟩).law hset

/-- The choice 8. -/
example : verdicts (literal "8") = [literal "err_syscall_num: PASS\n"] := by decide +kernel

/-- The tests as the first process of a machine. -/
theorem syserr_run_booted : ∃ s s₁ entry, Reachable dirMachine ByLive s ∧
    s.execute dirMachine blankFrame (some shellCommand) = .ok (.started entry, s₁) ∧
    ∀ c, (session dirMachine ⟨fun _ => 0, fun _ => 0⟩ Syserr.act (KeyPressed dirMachine)).Run
        ⟨.ask (fun _ => 0) fun _ => 0, s₁, []⟩ c →
      SyserrLaw dirMachine ⟨fun _ => 0, fun _ => 0⟩ s₁ c := by
  have hboot : BootState dirMachine bootKernel := ⟨rfl, rfl, rfl, rfl, rfl, rfl⟩
  obtain ⟨s, hs, hinst, hn⟩ := hboot.reachable blankFrame dirMachine_hasShell ByLive
  obtain ⟨σ, hsound⟩ := hs.sound
  obtain ⟨entry, s₁, hx⟩ := execute_shell blankFrame dirMachine_hasShell hsound.ready (by omega)
  have hdot : dirMachine.image.Contains (cString dotName) := ⟨0, by decide, by decide +kernel⟩
  have hwrong : ∀ name ∈ wrongNames, ∀ i < 2,
      strncmp (cString name) (dirMachine.image.dirEntries i).fname maxFnameLength ≠ 0 := by
    decide +kernel
  exact ⟨s, s₁, entry, hs, hx, fun c hr => syserr_run dirMachine_wellFormed.ftype_le hs hx hdot
    (fun name hname ⟨i, hi, hmatch⟩ => hwrong name hname i hi hmatch)
    (fun _ _ h => h.interrupted) _ _ _ c hr⟩

end KudOS.User
