import KudOS.ProgramArguments

/-!
# The contract of getargs

The caller passes a buffer of `nbytes` bytes. What `getargs` writes and what it reads
is stated by comparing calls: a byte of the buffer is written if some contents of it
are changed, and the PCB is read outside `cmd_args` if a change there can be seen.
-/

namespace KudOS
namespace Kernel

/-- `getargs(buf, n)` stores to `buf[k]`. -/
def ArgsWritten (l : PcbLink) (s : Kernel) (n k : ℕ) : Prop :=
  ∃ (b b' : ℕ → UInt8) (r : ℤ), s.getargs l (some b) n = .ok (r, some b') ∧ b' k ≠ b k

/-- Another PCB with the same `cmd_args` field gives the same result. -/
def OnlyCmdArgsRead (l : PcbLink) (s : Kernel) (n : ℕ) : Prop :=
  ∀ (p : Pcb) (b : ℕ → UInt8), (∀ k < maxCmdLength, p.cmdArgs k = s.curPcb.cmdArgs k) →
    (s.setPcb s.cur p).getargs l (some b) n = s.getargs l (some b) n

/-- What a caller with the arguments `args` and a buffer of `n` bytes may expect. -/
structure ArgsContract (l : PcbLink) (s : Kernel) (args : List UInt8)
    (buf : Option (ℕ → UInt8)) (n : ℕ) : Prop where
  fits : args.length < n →
    (∃ b', s.getargs l buf n = .ok (0, some b') ∧ ∀ k ≤ args.length, b' k = cString args k) ∧
    (∀ k, n ≤ k → ¬ ArgsWritten l s n k) ∧ OnlyCmdArgsRead l s n
  tooLong : n ≤ args.length → s.getargs l buf n = .ok (-1, buf)

variable {l : PcbLink} {s : Kernel} {c n : ℕ} {args : List UInt8}

theorem getargs_byte (l : PcbLink) (s : Kernel) (b : ℕ → UInt8) (n : ℕ) :
    ∃ b', s.getargs l (some b) n = .ok (0, some b') ∧ ∀ k, b' k =
      if k < n then s.argsMemory l k else if k = n then 0 else b k := by
  refine ⟨_, getargs_some l s b n, fun k => ?_⟩
  rcases lt_trichotomy k n with hlt | rfl | hgt
  · rw [Function.update_of_ne (by omega), memcpy, if_pos (by omega), if_pos hlt, Nat.sub_zero]
  · rw [Function.update_self, if_neg (by omega), if_pos rfl]
  · rw [Function.update_of_ne (by omega), memcpy, if_neg (by omega), if_neg (by omega),
      if_neg (by omega)]

/-- A string that fits is delivered with its terminator. -/
theorem getargs_delivers (h : s.HasArgs c args) (hc : c ≤ 6) (hlen : args.length < maxCmdLength)
    (hn : args.length < n) (b : ℕ → UInt8) :
    ∃ b', s.getargs l (some b) n = .ok (0, some b') ∧
      ∀ k ≤ args.length, b' k = cString args k := by
  obtain ⟨b', hget, hbyte⟩ := getargs_byte l s b n
  refine ⟨b', hget, fun k hk => ?_⟩
  rw [hbyte, if_pos (by omega)]
  exact h.argsMemory hc hlen hk

/-- The terminator is stored at the index `nbytes`, and nothing behind it. -/
theorem argsWritten_iff_of_le {k : ℕ} (hk : n ≤ k) : ArgsWritten l s n k ↔ k = n := by
  constructor
  · rintro ⟨b, b', r, hget, hne⟩
    obtain ⟨b'', hget', hbyte⟩ := getargs_byte l s b n
    have hbuf : b' = b'' := by
      rw [hget] at hget'
      exact Option.some.inj (Prod.mk.inj (Except.ok.inj hget')).2
    by_contra hkn
    rw [hbuf, hbyte, if_neg (by omega), if_neg hkn] at hne
    exact hne rfl
  · rintro rfl
    obtain ⟨b', hget, hbyte⟩ := getargs_byte l s (fun _ => 1) k
    refine ⟨_, b', 0, hget, ?_⟩
    rw [hbyte, if_neg (by omega), if_pos rfl]
    decide

/-- For every state, every argument string, every buffer and every count: `getargs`
keeps its contract only where it is refused for the NULL pointer and would have to
fail anyway. -/
theorem argsContract_iff (l : PcbLink) (s : Kernel) (args : List UInt8)
    (buf : Option (ℕ → UInt8)) (n : ℕ) :
    ArgsContract l s args buf n ↔ buf = none ∧ n ≤ args.length := by
  constructor
  · intro hcontract
    have hlong : n ≤ args.length := by
      by_contra hfits
      have hwrites := (hcontract.fits (by omega)).2.1 n le_rfl
      exact hwrites ((argsWritten_iff_of_le le_rfl).mpr rfl)
    refine ⟨?_, hlong⟩
    cases buf with
    | none => rfl
    | some b =>
      have hfail := hcontract.tooLong hlong
      rw [getargs_some] at hfail
      exact absurd (Prod.mk.inj (Except.ok.inj hfail)).1 (by decide)
  · rintro ⟨rfl, hlong⟩
    exact ⟨fun hfits => absurd hfits (by omega), fun _ => rfl⟩

/-- `grep` passes its array of 1024 bytes with the count 1024: the terminator is
stored behind the array, and the copy leaves the field. -/
theorem grep_search_overrun : ¬ ArgsContract ⟨fun _ => 0, fun _ => 0⟩
    (withArgs 1 (literal "a")) (literal "a") (some fun _ => 0xFF) 1024 := by
  intro hcontract
  refine (hcontract.fits (by decide)).2.1 1024 le_rfl ⟨fun _ => 1, ?_⟩
  obtain ⟨b', hget, hbyte⟩ := getargs_byte ⟨fun _ => 0, fun _ => 0⟩
    (withArgs 1 (literal "a")) (fun _ => 1) 1024
  refine ⟨b', 0, hget, ?_⟩
  rw [hbyte, if_neg (by decide), if_pos rfl]
  decide

end Kernel
end KudOS
