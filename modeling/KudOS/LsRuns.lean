import KudOS.ProgramResults

/-!
# Runs of ls

`ls` reads the directory entry by entry into 32 bytes and puts a newline behind what it
got. For a name of 32 bytes `read` returns 33, and the newline is stored behind the
buffer; any other directory is listed up to its first entry without a name.
-/

namespace KudOS.User

open Kernel Sessions

variable {m : Machine} {link : PcbLink} {s s' s₀ : Kernel} {fd n : ℕ}
  {σ : TerminalId → List ℕ} {disturbs : Kernel → Kernel → Prop} {cs : List (List UInt8)}

def withNewline (l : List UInt8) : List UInt8 := l ++ [newlineChar]

/-! ## The invariant -/

/-- Where `ls` stands with `n` calls to go. -/
inductive Ls.At (m : Machine) (s₀ : Kernel) (cs : List (List UInt8)) :
    ℕ → Config Ls Call Reply Kernel → Prop where
  | openDir {s t} (buf) (hs : Untouched s₀ s) (ht : written t = []) :
      Ls.At m s₀ cs (2 * cs.length + 2) ⟨.openDir buf, s, t⟩
  | readEntry {s t fd done rest} (buf) (hcs : cs = done ++ rest)
      (hfit : ∀ l ∈ done, l.length < 33) (hd : Delivers m 32 fd (s.files fd) rest)
      (ht : written t = done.flatMap withNewline) :
      Ls.At m s₀ cs (2 * rest.length + 1) ⟨.readEntry fd buf, s, t⟩
  | writeEntry {s t fd buf chunk done rest} (hcs : cs = done ++ chunk :: rest)
      (hfit : ∀ l ∈ done, l.length < 33) (hlen : chunk.length < 33)
      (hbuf : (List.range (chunk.length + 1)).map buf = withNewline chunk)
      (hd : Delivers m 32 fd (s.files fd) rest) (ht : written t = done.flatMap withNewline) :
      Ls.At m s₀ cs (2 * rest.length + 2) ⟨.writeEntry fd chunk.length buf, s, t⟩
  | outside {s t l} (hl : l ∈ cs) (hlen : 33 ≤ l.length) : Ls.At m s₀ cs 0 ⟨.outside, s, t⟩
  | ended {s t} (hfit : ∀ l ∈ cs, l.length < 33) (ht : written t = cs.flatMap withNewline) :
      Ls.At m s₀ cs 0 ⟨.ended 0, s, t⟩

structure Ls.Inv (m : Machine) (disturbs : Kernel → Kernel → Prop) (s₀ : Kernel)
    (cs : List (List UInt8)) (n : ℕ) (c : Config Ls Call Reply Kernel) : Prop where
  activity : Activity m s₀ c.state
  screen : Screen disturbs s₀.tty c.state c.trace
  place : Ls.At m s₀ cs n c

theorem Ls.At.withTty {c : Config Ls Call Reply Kernel} (h : Ls.At m s₀ cs n c) (y : Tty) :
    Ls.At m s₀ cs n { c with state := { c.state with tty := y } } := by
  cases h with
  | openDir buf hs ht => exact .openDir buf hs ht
  | readEntry buf hcs hfit hd ht => exact .readEntry buf hcs hfit hd ht
  | writeEntry hcs hfit hlen hbuf hd ht => exact .writeEntry hcs hfit hlen hbuf hd ht
  | outside hl hlen => exact .outside hl hlen
  | ended hfit ht => exact .ended hfit ht

/-- The program runs in a process in which `open` finds the directory. -/
structure Ls.Setup (m : Machine) (σ : TerminalId → List ℕ) (s₀ : Kernel) (fd : ℕ)
    (cs : List (List UInt8)) : Prop where
  sound : s₀.Sound σ
  live : s₀.Live s₀.cur
  opens : ∀ s, Untouched s₀ s → Opens m 32 s (cString (literal ".")) (some fd) cs

section Calls

variable {t : List (Call × Reply)} {q : Call} {next : Reply → Ls} {buf : ℕ → UInt8}
  {done rest : List (List UInt8)} {chunk : List UInt8}

end Calls

/-- The machine whose directory holds an entry for itself and the shell. -/
def dirMachine : Machine :=
  { shellMachine with image := dirImage ⟨cString shellCommand, fileTypeReg, 1⟩ }

theorem dirMachine_wellFormed : dirMachine.image.WellFormed := by
  refine ⟨by decide, by decide, fun i _ => ?_, fun i _ hreg => ?_,
    fun _ _ => (by decide : 100 ≤ 1023 * blockSize), fun _ _ _ _ => Nat.zero_lt_one⟩
  · change (if i = 0 then _ else _ : Dentry).ftype ≤ _
    split <;> decide
  · change (if i = 0 then _ else _ : Dentry).ftype = _ at hreg
    change (if i = 0 then _ else _ : Dentry).inode < 2
    split
    · decide
    · decide

theorem dirMachine_hasShell : dirMachine.image.HasShell := by
  have hfound : dirMachine.image.readDentryByName (cString shellCommand) =
      some ⟨cString shellCommand, fileTypeReg, 1⟩ := by
    have hname : strncmp (cString shellCommand) (cString shellCommand) maxFnameLength = 0 := by
      decide +kernel
    change (if strncmp (cString shellCommand) (cString shellCommand) maxFnameLength = 0 then
      some (⟨cString shellCommand, fileTypeReg, 1⟩ : Dentry)
      else if strncmp (cString shellCommand) (cString (literal ".")) maxFnameLength = 0 then
        some (⟨cString (literal "."), fileTypeDir, 0⟩ : Dentry) else none) = _
    rw [if_pos hname]
  have hsame : ∀ header, checkExecutable dirMachine.image header (cString shellCommand) =
      checkExecutable shellImage header (cString shellCommand) := by
    intro header
    rw [checkExecutable, checkExecutable, hfound, readDentryByName_shellImage]
    rfl
  obtain ⟨entry, haccept⟩ := shellImage_hasShell.accepted
  refine ⟨⟨entry, fun header => (hsame header).trans (haccept header)⟩, fun d _ => ?_⟩
  change 0x8048000 + 100 ≤ _
  decide

end KudOS.User
