import KudOS.DescriptorTable
import KudOS.ShellStart

/-!
# Descriptor validation

`read`, `write` and `close` with a trace of their accesses to `file_array` and of
their calls of a file operation. The traced functions compute what the system calls
compute.
-/

namespace KudOS

/-- What a system call does with a descriptor: access to an entry of `file_array`, or
a call through its operation table. -/
inductive FdEvent where
  | entry (index : ℤ)
  | operation
  deriving DecidableEq, Repr

/-- The entry at `file_array + 16 * fd`, in the 32-bit arithmetic of addresses. -/
def entryAt (fd : ℤ) : FdEvent := .entry (16 * fd % 2 ^ 32 / 16)

/-- The entries a `readptr`, `writeptr` or `closeptr` function accesses itself. -/
def ReadFn.trace (fd : ℤ) : ReadFn → List FdEvent
  | .readFile => [entryAt fd]
  | .terminalRead | .rtcRead => []

def CloseFn.trace (fd : ℤ) : CloseFn → List FdEvent
  | .closeFile => [entryAt fd]
  | .terminalClose | .rtcClose => []

namespace Kernel

/-! ## The calls with their traces -/

def tracedRead (m : Machine) (s : Kernel) (fd : ℤ) (bufIsNull : Bool) (nbytes : ℤ) :
    List FdEvent × Except Stop (ℤ × List UInt8 × Kernel) :=
  if s.flagsAt m fd = 0 then ([entryAt fd], return (-1, [], s))
  else if bufIsNull then ([entryAt fd], return (-1, [], s))
  else if fd > fdMaxIdx then ([entryAt fd], return (-1, [], s))
  else if fd < 0 then ([entryAt fd], return (-1, [], s))
  else if fd = 1 then ([entryAt fd], return (-1, [], s))
  else match s.readTarget fd.toNat with
    | none => ([entryAt fd, entryAt fd], throw .fault)
    | some f => ([entryAt fd, entryAt fd, .operation] ++ f.trace fd,
        ReadFn.call m s fd.toNat nbytes f)

/-- `write`. None of the `writeptr` functions accesses `file_array`. -/
def tracedWrite (m : Machine) (s : Kernel) (fd : ℤ) (buf : Option (ℕ → UInt8)) (nbytes : ℤ) :
    List FdEvent × Except Stop (ℤ × Kernel) :=
  if s.flagsAt m fd = 0 then ([entryAt fd], return (-1, s))
  else match buf with
    | none => ([entryAt fd], return (-1, s))
    | some buf =>
      if fd > fdMaxIdx then ([entryAt fd], return (-1, s))
      else if fd ≤ 0 then ([entryAt fd], return (-1, s))
      else match s.writeTarget fd.toNat with
        | none => ([entryAt fd, entryAt fd], throw .fault)
        | some f => ([entryAt fd, entryAt fd, .operation], return WriteFn.call s buf nbytes f)

/-- `close`: the flags are tested, tested again and cleared, and `remove_fd` clears the
entry behind the call. -/
def tracedClose (m : Machine) (s : Kernel) (fd : ℤ) :
    List FdEvent × Except Stop (ℤ × Kernel) :=
  if s.flagsAt m fd = 0 then ([entryAt fd], return (-1, s))
  else if fd < fdMinIdx then ([entryAt fd], return (-1, s))
  else if fd > fdMaxIdx then ([entryAt fd], return (-1, s))
  else
    let i := s.cur
    let n := fd.toNat
    if ((s.pcbs i).fileArray n).flags = fileNotInUse then
      ([entryAt fd, entryAt fd], return (-1, s))
    else
      let s := s.setFd i n { (s.pcbs i).fileArray n with flags := fileNotInUse }
      match s.closeTarget n with
      | none => ([entryAt fd, entryAt fd, entryAt fd, entryAt fd], throw .fault)
      | some f =>
        let s := CloseFn.call s n f
        ([entryAt fd, entryAt fd, entryAt fd, entryAt fd, .operation] ++ f.trace fd ++
          [entryAt fd], return (0, s.removeFd i n))

/-! ## The traced calls compute the calls -/

theorem tracedRead_snd (m : Machine) (s : Kernel) (fd : ℤ) (null : Bool) (n : ℤ) :
    (s.tracedRead m fd null n).2 = s.sysRead m fd null n := by
  rw [tracedRead, sysRead]
  split_ifs <;> try rfl
  cases s.readTarget fd.toNat <;> rfl

theorem tracedWrite_snd (m : Machine) (s : Kernel) (fd : ℤ) (buf : Option (ℕ → UInt8))
    (n : ℤ) : (s.tracedWrite m fd buf n).2 = s.sysWrite m fd buf n := by
  cases buf with
  | none =>
    unfold tracedWrite sysWrite
    split_ifs <;> rfl
  | some buf =>
    unfold tracedWrite sysWrite
    dsimp only
    split_ifs <;> try rfl
    cases s.writeTarget fd.toNat <;> rfl

theorem tracedClose_snd (m : Machine) (s : Kernel) (fd : ℤ) :
    (s.tracedClose m fd).2 = s.sysClose m fd := by
  rw [tracedClose, sysClose]
  dsimp only
  split_ifs <;> try rfl
  cases closeTarget _ fd.toNat <;> rfl

/-! ## The accesses -/

/-- All accesses of a trace are to the eight entries of the table. -/
def InTable (t : List FdEvent) : Prop :=
  ∀ i, FdEvent.entry i ∈ t → 0 ≤ i ∧ i ≤ fdMaxIdx

variable {m : Machine} {s : Kernel} {fd n : ℤ}

/-- The first thing each of the three calls does is to read the entry's flags. Behind
it come only accesses to the same entry. -/
structure StartsAt (fd : ℤ) (t : List FdEvent) : Prop where
  first : entryAt fd ∈ t
  rest : ∀ i, FdEvent.entry i ∈ t → FdEvent.entry i = entryAt fd

theorem tracedRead_startsAt (m : Machine) (s : Kernel) (fd : ℤ) (null : Bool) (n : ℤ) :
    StartsAt fd (s.tracedRead m fd null n).1 := by
  have hone : StartsAt fd [entryAt fd] := ⟨by simp, by simp⟩
  rw [tracedRead]
  split_ifs <;> try exact hone
  cases s.readTarget fd.toNat with
  | none => exact ⟨by simp, by simp⟩
  | some f => cases f <;> exact ⟨by simp, by simp [ReadFn.trace]⟩

theorem tracedWrite_startsAt (m : Machine) (s : Kernel) (fd : ℤ) (buf : Option (ℕ → UInt8))
    (n : ℤ) : StartsAt fd (s.tracedWrite m fd buf n).1 := by
  have hone : StartsAt fd [entryAt fd] := ⟨by simp, by simp⟩
  cases buf with
  | none =>
    unfold tracedWrite
    split_ifs <;> exact hone
  | some buf =>
    unfold tracedWrite
    dsimp only
    split_ifs <;> try exact hone
    cases s.writeTarget fd.toNat <;> exact ⟨by simp, by simp⟩

theorem tracedClose_startsAt (m : Machine) (s : Kernel) (fd : ℤ) :
    StartsAt fd (s.tracedClose m fd).1 := by
  have hone : StartsAt fd [entryAt fd] := ⟨by simp, by simp⟩
  rw [tracedClose]
  dsimp only
  split_ifs
  · exact hone
  · exact hone
  · exact hone
  · exact ⟨by simp, by simp⟩
  cases closeTarget _ fd.toNat with
  | none => exact ⟨by simp, by simp⟩
  | some f => cases f <;> exact ⟨by simp, by simp [CloseFn.trace]⟩

/-- The address of an entry wraps around after 2^28 entries. -/
theorem StartsAt.inTable_iff {t : List FdEvent} (h : StartsAt fd t) :
    InTable t ↔ fd % 2 ^ 28 ≤ 7 := by
  have hindex : 16 * fd % 2 ^ 32 / 16 = fd % 2 ^ 28 := by omega
  constructor
  · intro ht
    have hfirst := (ht _ h.first).2
    rw [hindex, fdMaxIdx] at hfirst
    exact hfirst
  · intro hfd i hi
    have hi := FdEvent.entry.inj (h.rest i hi)
    rw [hi, hindex, fdMaxIdx]
    exact ⟨Int.emod_nonneg _ (by decide), hfd⟩

/-! ## Descriptors outside of the table -/

theorem tracedRead_outOfRange (m : Machine) (s : Kernel) (null : Bool) (n : ℤ)
    (h : fd < 0 ∨ 7 < fd) :
    s.tracedRead m fd null n = ([entryAt fd], .ok (-1, [], s)) := by
  rw [tracedRead, fdMaxIdx]
  split_ifs <;> first | rfl | omega

theorem tracedWrite_outOfRange (m : Machine) (s : Kernel) (buf : Option (ℕ → UInt8)) (n : ℤ)
    (h : fd < 0 ∨ 7 < fd) :
    s.tracedWrite m fd buf n = ([entryAt fd], .ok (-1, s)) := by
  cases buf with
  | none =>
    unfold tracedWrite
    split_ifs <;> rfl
  | some buf =>
    unfold tracedWrite
    rw [fdMaxIdx]
    dsimp only
    split_ifs <;> first | rfl | omega

theorem tracedClose_outOfRange (m : Machine) (s : Kernel) (h : fd < 0 ∨ 7 < fd) :
    s.tracedClose m fd = ([entryAt fd], .ok (-1, s)) := by
  rw [tracedClose, fdMaxIdx, fdMinIdx]
  dsimp only
  split_ifs <;> first | rfl | omega

/-- What the three calls promise about a descriptor: no access outside of the table,
and outside of the table -1, no call of a file operation and no change. -/
structure DescriptorValidated (m : Machine) (s : Kernel) (fd : ℤ) (buf : Option (ℕ → UInt8))
    (n : ℤ) : Prop where
  inTable : InTable (s.tracedRead m fd buf.isNone n).1 ∧
    InTable (s.tracedWrite m fd buf n).1 ∧ InTable (s.tracedClose m fd).1
  refused : fd < 0 ∨ 7 < fd →
    (s.sysRead m fd buf.isNone n = .ok (-1, [], s) ∧ s.sysWrite m fd buf n = .ok (-1, s) ∧
      s.sysClose m fd = .ok (-1, s)) ∧
    FdEvent.operation ∉ (s.tracedRead m fd buf.isNone n).1 ∧
    FdEvent.operation ∉ (s.tracedWrite m fd buf n).1 ∧
    FdEvent.operation ∉ (s.tracedClose m fd).1

/-- A descriptor outside of the table is refused, whatever its flags are read as. -/
theorem outOfRange_refused (m : Machine) (s : Kernel) (buf : Option (ℕ → UInt8)) (n : ℤ)
    (h : fd < 0 ∨ 7 < fd) :
    (s.sysRead m fd buf.isNone n = .ok (-1, [], s) ∧ s.sysWrite m fd buf n = .ok (-1, s) ∧
      s.sysClose m fd = .ok (-1, s)) ∧
    FdEvent.operation ∉ (s.tracedRead m fd buf.isNone n).1 ∧
    FdEvent.operation ∉ (s.tracedWrite m fd buf n).1 ∧
    FdEvent.operation ∉ (s.tracedClose m fd).1 := by
  have hread := tracedRead_outOfRange m s buf.isNone n h
  have hwrite := tracedWrite_outOfRange m s buf n h
  have hclose := tracedClose_outOfRange m s h
  have hentry : FdEvent.operation ∉ [entryAt fd] := by simp [entryAt]
  rw [← tracedRead_snd, ← tracedWrite_snd, ← tracedClose_snd, hread, hwrite, hclose]
  exact ⟨⟨rfl, rfl, rfl⟩, hentry, hentry, hentry⟩

/-- For every state, every surrounding memory, every descriptor, buffer and count: the
calls stay in the table exactly if the address of the entry does. -/
theorem descriptorValidated_iff (m : Machine) (s : Kernel) (fd : ℤ)
    (buf : Option (ℕ → UInt8)) (n : ℤ) :
    DescriptorValidated m s fd buf n ↔ fd % 2 ^ 28 ≤ 7 := by
  have hread := (tracedRead_startsAt m s fd buf.isNone n).inTable_iff
  have hwrite := (tracedWrite_startsAt m s fd buf n).inTable_iff
  have hclose := (tracedClose_startsAt m s fd).inTable_iff
  constructor
  · intro h
    exact hclose.mp h.inTable.2.2
  · intro h
    exact ⟨⟨hread.mpr h, hwrite.mpr h, hclose.mpr h⟩, outOfRange_refused m s buf n⟩

/-- Descriptor 8 is the first one behind the table: its flags are the saved `esp`. -/
theorem fd_eight_read : ¬ DescriptorValidated shellMachine bootKernel 8 none 0 := by
  intro h
  have hentry := h.inTable.2.2 8 (tracedClose_startsAt shellMachine bootKernel 8).first
  exact absurd hentry.2 (by decide)

end Kernel
end KudOS
