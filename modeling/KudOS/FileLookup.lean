import KudOS.CStrings
import KudOS.ShellStart

/-!
# Looking a file up by name

A directory entry has 32 bytes for its name, and `strncmp` compares no more than these
with the string it is given. A name of 32 bytes is therefore also found under every
longer string that begins with it.
-/

namespace KudOS

/-- The test of the lookup holds for some entry. -/
def FsImage.Contains (img : FsImage) (fname : ℕ → UInt8) : Prop :=
  ∃ i < img.numDirEntries, strncmp fname (img.dirEntries i).fname maxFnameLength = 0

/-- The lookup returns a matching entry, if there is one. -/
theorem FsImage.readDentryByName_cases (img : FsImage) (fname : ℕ → UInt8) :
    (¬ img.Contains fname ∧ img.readDentryByName fname = none) ∨
      ∃ i < img.numDirEntries, strncmp fname (img.dirEntries i).fname maxFnameLength = 0 ∧
        img.readDentryByName fname = some (img.dirEntries i) := by
  let body := fun (i : ℕ) (found : Option Dentry) =>
    if strncmp fname (img.dirEntries i).fname maxFnameLength = 0 then some (img.dirEntries i)
    else found
  have hloop : (∀ i < img.numDirEntries,
      strncmp fname (img.dirEntries i).fname maxFnameLength ≠ 0) ∧
        forLoop img.numDirEntries body none = none ∨
      ∃ i < img.numDirEntries, strncmp fname (img.dirEntries i).fname maxFnameLength = 0 ∧
        forLoop img.numDirEntries body none = some (img.dirEntries i) := by
    induction img.numDirEntries with
    | zero => exact Or.inl ⟨fun i hi => absurd hi (Nat.not_lt_zero i), rfl⟩
    | succ n ih =>
      rw [forLoop_succ]
      by_cases hn : strncmp fname (img.dirEntries n).fname maxFnameLength = 0
      · exact Or.inr ⟨n, Nat.lt_succ_self n, hn, if_pos hn⟩
      · have hbody : body n (forLoop n body none) = forLoop n body none := if_neg hn
        rw [hbody]
        rcases ih with ⟨hall, hnone⟩ | ⟨i, hi, hmatch, hsome⟩
        · refine Or.inl ⟨fun i hi => ?_, hnone⟩
          rcases Nat.lt_succ_iff_lt_or_eq.mp hi with hlt | rfl
          · exact hall i hlt
          · exact hn
        · exact Or.inr ⟨i, Nat.lt_succ_of_lt hi, hmatch, hsome⟩
  rcases hloop with ⟨hall, hnone⟩ | hfound
  · exact Or.inl ⟨fun ⟨i, hi, hmatch⟩ => hall i hi hmatch, hnone⟩
  · exact Or.inr hfound

/-- The name of an entry. A name of 32 bytes has no terminator. -/
def Dentry.name (d : Dentry) : List UInt8 := fieldText 0 d.fname maxFnameLength

namespace FsImage

/-- `read_dentry_by_name` with the record its second argument points to: the value
returned, and the record after the call. -/
def readDentryInto (img : FsImage) (fname : ℕ → UInt8) (dentry : Dentry) : ℤ × Dentry :=
  let (found, dentry) := forLoop img.numDirEntries
    (fun i (found, dentry) =>
      if strncmp fname (img.dirEntries i).fname maxFnameLength = 0 then (1, img.dirEntries i)
      else (found, dentry)) ((0 : ℤ), dentry)
  if found = 0 then (-1, dentry) else (0, dentry)

def HasEntry (img : FsImage) (str : List UInt8) : Prop :=
  ∃ i < img.numDirEntries, (img.dirEntries i).name = str

/-- Some entry has a name of 32 bytes, and `str` goes on behind it. -/
def HasFullPrefix (img : FsImage) (str : List UInt8) : Prop :=
  maxFnameLength < str.length ∧ img.HasEntry (str.take maxFnameLength)

def LastEntry (img : FsImage) (str : List UInt8) (d : Dentry) : Prop :=
  ∃ i < img.numDirEntries, (img.dirEntries i).name = str ∧ d = img.dirEntries i ∧
    ∀ j, i < j → j < img.numDirEntries → (img.dirEntries j).name ≠ str

instance (img : FsImage) (str : List UInt8) : Decidable (img.HasEntry str) :=
  inferInstanceAs (Decidable (∃ i < img.numDirEntries, (img.dirEntries i).name = str))

instance (img : FsImage) (str : List UInt8) : Decidable (img.HasFullPrefix str) :=
  inferInstanceAs (Decidable (_ ∧ _))

end FsImage

/-! ## strncmp -/

theorem toInt8_sub_eq_zero_iff (x y : UInt8) : x.toInt8.toInt - y.toInt8.toInt = 0 ↔ x = y := by
  constructor
  · intro h
    have heq : x.toInt8 = y.toInt8 := Int8.toInt_inj.mp (by omega)
    simpa using congrArg Int8.toUInt8 heq
  · rintro rfl
    exact Int.sub_self _

theorem strncmpFrom_eq_zero_iff (s1 s2 : ℕ → UInt8) (n i : ℕ) :
    strncmpFrom s1 s2 n i = 0 ↔ textFrom 0 s1 n i = textFrom 0 s2 n i := by
  induction n generalizing i with
  | zero => simp [strncmpFrom, textFrom]
  | succ n ih =>
    rw [strncmpFrom, textFrom, textFrom]
    by_cases heq : s1 i = s2 i
    · by_cases hz : s2 i = 0
      · simp [heq, hz]
      · simp [heq, hz, ih (i + 1)]
    · rw [if_pos (Or.inl heq), toInt8_sub_eq_zero_iff]
      have hne : ¬ s2 i = s1 i := fun h => heq h.symm
      by_cases h1 : s1 i = 0
      · have h2 : ¬ s2 i = 0 := fun h2 => heq (h1.trans h2.symm)
        simp [h1, h2, Ne.symm h2]
      · by_cases h2 : s2 i = 0
        · simp [h1, h2]
        · simp [heq, h1, h2]

/-- The test of the lookup for one entry. -/
theorem strncmp_fname_iff {fname : ℕ → UInt8} {str : List UInt8} (hs : HoldsString 0 fname str)
    (e : Dentry) : strncmp fname e.fname maxFnameLength = 0 ↔
      e.name = str.take maxFnameLength := by
  have htext : textFrom 0 fname maxFnameLength 0 = str.take maxFnameLength :=
    hs.fieldText_eq maxFnameLength
  rw [strncmp, strncmpFrom_eq_zero_iff, htext]
  exact eq_comm

theorem Dentry.length_name_le (d : Dentry) : d.name.length ≤ maxFnameLength :=
  length_textFrom_le maxFnameLength 0

theorem cString_of_lt {str : List UInt8} {i : ℕ} (hi : i < str.length) :
    cString str i = str[i] := by
  simp [cString, hi]

theorem holdsString_cString {str : List UInt8} (h : (0 : UInt8) ∉ str) :
    HoldsString 0 (cString str) str where
  char _ hi := cString_of_lt hi
  terminated := cString_length str
  no_terminator := h

/-- The string is the name in the PCB that `execute` stores it to. -/
theorem storeString_eq_of_holdsString {fname : ℕ → UInt8} {str : List UInt8}
    (hs : HoldsString 0 fname str) (a : ℕ → UInt8) {k : ℕ} (hk : k ≤ str.length) :
    storeString a str k = fname k := by
  rw [storeString_eq _ _ hk]
  rcases Nat.lt_or_eq_of_le hk with hlt | rfl
  · rw [hs.char k hlt, cString_of_lt hlt]
  · rw [cString_length, hs.terminated]

/-! ## The lookup -/

namespace FsImage

variable (img : FsImage) {fname : ℕ → UInt8} {str : List UInt8}

theorem readDentryInto_eq (fname : ℕ → UInt8) (d : Dentry) :
    img.readDentryInto fname d =
      (img.readDentryByName fname).elim (-1, d) fun e => (0, e) := by
  have hloop : forLoop img.numDirEntries
      (fun i (p : ℤ × Dentry) =>
        if strncmp fname (img.dirEntries i).fname maxFnameLength = 0 then (1, img.dirEntries i)
        else (p.1, p.2)) ((0 : ℤ), d) =
      (img.readDentryByName fname).elim (0, d) fun e => (1, e) := by
    unfold readDentryByName
    induction img.numDirEntries with
    | zero => rfl
    | succ n ih =>
      rw [forLoop_succ, forLoop_succ, ih]
      by_cases hn : strncmp fname (img.dirEntries n).fname maxFnameLength = 0
      · rw [if_pos hn, if_pos hn]
        rfl
      · rw [if_neg hn, if_neg hn]
  rw [readDentryInto]
  simp only [hloop]
  cases img.readDentryByName fname <;> rfl

theorem contains_iff (hs : HoldsString 0 fname str) :
    img.Contains fname ↔ img.HasEntry (str.take maxFnameLength) := by
  simp only [Contains, HasEntry, strncmp_fname_iff hs]

theorem not_hasEntry_of_lt (h : maxFnameLength < str.length) : ¬ img.HasEntry str := by
  rintro ⟨i, _, hname⟩
  have hle := (img.dirEntries i).length_name_le
  rw [hname] at hle
  omega

/-- What `strncmp` finds has the whole name, unless the name fills its field and the
string goes on behind it. -/
theorem contains_iff_hasEntry (hs : HoldsString 0 fname str) (h : ¬ img.HasFullPrefix str) :
    img.Contains fname ↔ img.HasEntry str := by
  rw [img.contains_iff hs]
  rcases Nat.lt_or_ge maxFnameLength str.length with hlt | hle
  · exact ⟨fun hfound => absurd ⟨hlt, hfound⟩ h, fun hfound =>
      absurd hfound (img.not_hasEntry_of_lt hlt)⟩
  · rw [List.take_of_length_le hle]

theorem readDentryByName_eq_none_iff (fname : ℕ → UInt8) :
    img.readDentryByName fname = none ↔ ¬ img.Contains fname := by
  rcases img.readDentryByName_cases fname with ⟨hno, hnone⟩ | ⟨i, hi, hmatch, hsome⟩
  · simp [hno, hnone]
  · rw [hsome]
    exact ⟨nofun, fun hno => absurd ⟨i, hi, hmatch⟩ hno⟩

/-- The lookup finds the last entry whose name is the string cut to 32 characters. -/
theorem readDentryByName_eq_some_iff {d : Dentry} (hs : HoldsString 0 fname str) :
    img.readDentryByName fname = some d ↔ img.LastEntry (str.take maxFnameLength) d := by
  simp only [readDentryByName, LastEntry, strncmp_fname_iff hs]
  induction img.numDirEntries with
  | zero => simp
  | succ n ih =>
    rw [forLoop_succ]
    by_cases hn : (img.dirEntries n).name = str.take maxFnameLength
    · rw [if_pos hn]
      constructor
      · intro hd
        exact ⟨n, Nat.lt_succ_self n, hn, (Option.some.inj hd).symm, fun j hnj hj => by omega⟩
      · rintro ⟨i, hi, -, hd, hlast⟩
        obtain rfl : i = n := by
          by_contra hne
          exact hlast n (by omega) (Nat.lt_succ_self n) hn
        exact congrArg some hd.symm
    · rw [if_neg hn, ih]
      constructor
      · rintro ⟨i, hi, hname, hd, hlast⟩
        refine ⟨i, Nat.lt_succ_of_lt hi, hname, hd, fun j hij hj => ?_⟩
        rcases Nat.lt_succ_iff_lt_or_eq.mp hj with hlt | rfl
        · exact hlast j hij hlt
        · exact hn
      · rintro ⟨i, hi, hname, hd, hlast⟩
        have hne : i ≠ n := fun hin => hn (hin ▸ hname)
        exact ⟨i, by omega, hname, hd, fun j hij hj => hlast j hij (Nat.lt_succ_of_lt hj)⟩

end FsImage

/-! ## Exact lookup -/

/-- `read_dentry_by_name` finds the whole of `str`, which `fname` holds, and nothing
else, and `open` and `execute` refuse what is not the name of an entry. -/
structure ExactLookup (m : Machine) (fname : ℕ → UInt8) (str : List UInt8) : Prop where
  found : ∀ d, (m.image.readDentryInto fname d).1 = 0 ↔ m.image.HasEntry str
  entry : ∀ d, (m.image.readDentryInto fname d).1 = 0 → ∃ i < m.image.numDirEntries,
    (m.image.dirEntries i).name = str ∧ (m.image.readDentryInto fname d).2 = m.image.dirEntries i
  failed : ∀ d, (m.image.readDentryInto fname d).1 ≠ 0 → m.image.readDentryInto fname d = (-1, d)
  opened : ∀ s : Kernel, ¬ m.image.HasEntry str → (s.sysOpen m fname).1 = -1
  executed : ∀ (s : Kernel) fr command args, ¬ m.image.HasEntry str →
    checkCommand (some command) = some (str, args) →
    ∀ entry s', s.execute m fr (some command) ≠ .ok (.started entry, s')

namespace Kernel

variable {m : Machine} {fname : ℕ → UInt8} {str : List UInt8}

/-- `execute` starts only what the lookup finds. -/
theorem execute_ne_started (hs : HoldsString 0 fname str)
    (hnone : m.image.readDentryByName fname = none) (s : Kernel) (fr : StackFrame)
    {command args : List UInt8} (hcmd : checkCommand (some command) = some (str, args))
    (entry : ℕ) (s' : Kernel) : s.execute m fr (some command) ≠ .ok (.started entry, s') := by
  intro hx
  rw [execute] at hx
  split at hx
  · cases hx
  obtain ⟨⟨i, u⟩, -, hload⟩ := bind_eq_ok.mp hx
  simp only [loadCommand, hcmd] at hload
  split at hload
  · have hname : ∀ k ≤ str.length, storeString (u.pcbs i).cmdName str k = fname k :=
      fun k hk => storeString_eq_of_holdsString hs _ hk
    have hcheck : checkExecutable m.image fr.elfHeader
        (storeString (u.pcbs i).cmdName str) = none := by
      rw [checkExecutable_congr m.image fr.elfHeader hs.terminated hname, checkExecutable, hnone]
    simp [hcheck, setPcb] at hload
  · cases hload

end Kernel

/-- The lookup succeeds for a string behind a full name, but no entry has a name this
long. -/
theorem ExactLookup.not_hasFullPrefix {m : Machine} {fname : ℕ → UInt8} {str : List UInt8}
    (h : ExactLookup m fname str) (hs : HoldsString 0 fname str) :
    ¬ m.image.HasFullPrefix str := by
  rintro ⟨hlt, hfound⟩
  refine m.image.not_hasEntry_of_lt hlt ((h.found ⟨fun _ => 0, 0, 0⟩).mp ?_)
  have hc := (m.image.contains_iff hs).mpr hfound
  rcases m.image.readDentryByName_cases fname with ⟨hno, -⟩ | ⟨i, _, _, hsome⟩
  · exact absurd hc hno
  · rw [m.image.readDentryInto_eq, hsome]
    rfl

open Kernel in
/-- The lookup is exact unless a name fills its field and the string goes on behind it. -/
theorem exactLookup_iff (m : Machine) {fname : ℕ → UInt8} {str : List UInt8}
    (hs : HoldsString 0 fname str) : ExactLookup m fname str ↔ ¬ m.image.HasFullPrefix str := by
  constructor
  · exact fun h => h.not_hasFullPrefix hs
  · intro h
    have hiff := m.image.contains_iff_hasEntry hs h
    have hnone := m.image.readDentryByName_eq_none_iff fname
    cases hd : m.image.readDentryByName fname with
    | none =>
      have hno : ¬ m.image.HasEntry str := fun hfound => hnone.mp hd (hiff.mpr hfound)
      have hinto : ∀ d, m.image.readDentryInto fname d = (-1, d) := by
        intro d
        rw [m.image.readDentryInto_eq, hd]
        rfl
      refine ⟨fun d => ?_, fun d hr => ?_, fun d _ => hinto d, fun s _ => ?_,
        fun s fr command args _ hcmd => execute_ne_started hs hd s fr hcmd⟩
      · simp [hinto d, hno]
      · simp [hinto d] at hr
      · simp only [sysOpen, openFile, hd]
    | some e =>
      have hfound : m.image.HasEntry str := by
        by_contra hno
        rw [hnone.mpr fun hc => hno (hiff.mp hc)] at hd
        cases hd
      have hle : str.length ≤ maxFnameLength := by
        by_contra hlt
        exact m.image.not_hasEntry_of_lt (by omega) hfound
      have hlast := (m.image.readDentryByName_eq_some_iff hs).mp hd
      rw [List.take_of_length_le hle] at hlast
      obtain ⟨i, hi, hname, rfl, -⟩ := hlast
      have hinto : ∀ d, m.image.readDentryInto fname d = (0, m.image.dirEntries i) := by
        intro d
        rw [m.image.readDentryInto_eq, hd]
        rfl
      refine ⟨fun d => ?_, fun d _ => ⟨i, hi, hname, by rw [hinto d]⟩, fun d hr => ?_,
        fun _ hno => absurd hfound hno, fun _ _ _ _ hno => absurd hfound hno⟩
      · simp [hinto d, hfound]
      · simp [hinto d] at hr

/-! ## The names of the file system directory -/

/-- The lookup of `shell` is exact. -/
theorem shell_exactLookup : ExactLookup shellMachine (cString shellCommand) shellCommand :=
  (exactLookup_iff shellMachine (holdsString_cString (by decide +kernel))).mpr (by decide +kernel)

/-- The machine with the file of the longest name in its directory. -/
def longNameMachine : Machine :=
  { shellMachine with
    image := { shellImage with
      dirEntries := fun _ =>
        ⟨cString (literal "verylargetxtwithverylongname.txt"), fileTypeReg, 1⟩ } }

/-- The name with one more letter is found as well. -/
theorem longName_not_exactLookup : ¬ ExactLookup longNameMachine
    (cString (literal "verylargetxtwithverylongname.txtt"))
    (literal "verylargetxtwithverylongname.txtt") := by
  intro h
  exact h.not_hasFullPrefix (holdsString_cString (by decide +kernel)) (by decide +kernel)

end KudOS
