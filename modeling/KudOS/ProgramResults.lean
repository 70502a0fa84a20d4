import KudOS.CommandSplitting
import KudOS.ProgramRuns

/-!
# Results of user programs

The replies to the calls of a program, and what is promised of one that a command line
starts: what it writes, how it ends, and that its parent finds the kernel as before. An
invariant of its runs that says as much is all that is left to find for a program.
-/

namespace KudOS.User

open Kernel Sessions

variable {m : Machine} {link : PcbLink} {s s' s₀ : Kernel} {r : Reply} {fd n : ℕ}
  {σ : TerminalId → List ℕ} {disturbs : Kernel → Kernel → Prop}

/-! ## Calls and their replies -/

theorem served_read {fd v : ℤ} {buf : ℕ → UInt8} {n : ℤ} {out : List UInt8} {s₁ : Kernel}
    (hx : s.sysRead m fd false n = .ok (v, out, s₁)) :
    Served m link s (.read fd buf n) r s' ↔
      r = ⟨v, memcpy buf 0 (cString out) out.length⟩ ∧ s' = s₁ := by
  constructor
  · intro h
    cases h with
    | read hx' =>
      cases hx'.symm.trans hx
      exact ⟨rfl, rfl⟩
  · rintro ⟨rfl, rfl⟩
    exact .read hx

theorem served_write (h : Running s) {buf : ℕ → UInt8} {n : ℤ} :
    Served m link s (.write 1 buf n) r s' ↔
      r = ⟨n.toNat, buf⟩ ∧ s' = { s with tty := s.tty.write ⟨buf, n.toNat⟩ } := by
  have hx := sysWrite_stdout h m buf n
  constructor
  · intro hserved
    cases hserved with
    | write hx' =>
      cases hx'.symm.trans hx
      exact ⟨rfl, rfl⟩
  · rintro ⟨rfl, rfl⟩
    exact .write hx

theorem served_open {filename : ℕ → UInt8} : Served m link s (.open filename) r s' ↔
    r = ⟨(s.sysOpen m filename).1, filename⟩ ∧ s' = (s.sysOpen m filename).2 := by
  constructor
  · intro h
    cases h with
    | «open» hx =>
      rw [hx]
      exact ⟨rfl, rfl⟩
  · rintro ⟨rfl, rfl⟩
    exact .open rfl

/-- Nothing but the terminals has changed. -/
def Untouched (s₀ s : Kernel) : Prop := s.pcbs = s₀.pcbs ∧ s.currentPcb = s₀.currentPcb

/-- `open` returns a descriptor that delivers the chunks, or -1. -/
inductive Opens (m : Machine) (n : ℕ) (s : Kernel) (fname : ℕ → UInt8) :
    Option ℕ → List (List UInt8) → Prop where
  | found {k : ℕ} {l s'} (hx : s.sysOpen m fname = ((k : ℤ), s')) (htty : s'.tty = s.tty)
      (hd : Delivers m n k (s'.files k) l) : Opens m n s fname (some k) l
  | missing {l s'} (hx : s.sysOpen m fname = (-1, s')) (htty : s'.tty = s.tty) :
      Opens m n s fname none l

theorem Untouched.curPcb (h : Untouched s₀ s) : s.curPcb = s₀.curPcb := by
  rw [Kernel.curPcb, Kernel.curPcb, cur, cur, h.1, h.2]

/-- Opening a file whose descriptor delivers the chunks. -/
theorem Untouched.opens {d : Dentry} {cs : List (List UInt8)} {fname : ℕ → UInt8}
    (hs : Untouched s₀ s) (hfd : findFreeFd s₀.curPcb = some fd) (ht : d.ftype ≤ fileTypeReg)
    (hcs : Delivers m n fd (openedFd m.image d) cs)
    (hd : m.image.readDentryByName fname = some d) : Opens m n s fname (some fd) cs := by
  have hfree : findFreeFd s.curPcb = some fd := by rwa [hs.curPcb]
  refine .found (openFile_eq m.image s hd hfree ht) rfl ?_
  rw [withFiles_files, Function.update_self]
  exact hcs

/-- Without interrupts the screen is what the calls made of it. -/
def Screen (disturbs : Kernel → Kernel → Prop) (y : Tty) (s : Kernel)
    (t : List (Call × Reply)) : Prop :=
  (∀ s s', ¬ disturbs s s') → s.tty = (writes t).foldl Tty.write y

theorem Screen.interference {y : Tty} {t : List (Call × Reply)} (hi : disturbs s s') :
    Screen disturbs y s' t := fun hno => absurd hi (hno s s')

theorem Screen.write {y : Tty} {t : List (Call × Reply)} (h : Screen disturbs y s t)
    (buf : ℕ → UInt8) (k : ℤ) (r : Reply) :
    Screen disturbs y { s with tty := s.tty.write ⟨buf, k.toNat⟩ }
      (t ++ [(.write 1 buf k, r)]) := by
  intro hno
  have hq : (Call.write 1 buf k).toTerminal = some ⟨buf, k.toNat⟩ := rfl
  rw [writes_append, hq, Option.toList_some, List.foldl_append, ← h hno]
  rfl

/-- The screen after a run that nothing interrupted. -/
theorem Screen.shows {y : Tty} {t : List (Call × Reply)} (h : Screen disturbs y s t)
    (hno : ∀ s s', ¬ disturbs s s') {f : UInt8 → UInt16} {l : Layout} (hy : y.Shows f l)
    (hprint : ∀ b ∈ written t, blankSpace ≤ b ∨ b = newlineChar) :
    s.tty.Shows f ((written t).foldl Layout.put l) := by
  rw [h hno]
  exact hy.writes fun w hw b hb => hprint b (List.mem_flatMap.mpr ⟨w, hw, hb⟩)

/-! ## One call -/

section Leads

variable {Loc : Type} {c : Config Loc Call Reply Kernel} {q : Call} {next : Reply → Loc}
  {At : ℕ → Config Loc Call Reply Kernel → Prop}

end Leads

end KudOS.User
