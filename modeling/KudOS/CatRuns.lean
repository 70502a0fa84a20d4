import KudOS.ProgramResults

/-!
# Runs of cat

`cat` copies its argument from the command line, opens the file and writes every chunk
that it reads. Its runs are followed with the chunks that are still to come as the
measure; interrupts do not touch the descriptor. `getargs` stores a terminator behind the
buffer, into `fd`, which is not yet set then.
-/

namespace KudOS.User

open Kernel Sessions

variable {m : Machine} {link : PcbLink} {s s' s₀ : Kernel} {fd n : ℕ}
  {σ : TerminalId → List ℕ} {disturbs : Kernel → Kernel → Prop} {cs : List (List UInt8)}

/-! ## The invariant -/

/-- What `cat` writes for an argument that `open` finds on `fd` with the chunks `cs`, or
does not find. -/
def Cat.chunks (found : Option ℕ) (cs : List (List UInt8)) : List (List UInt8) :=
  if found.isSome then cs else [Cat.notFound]

/-- `fd` holds the descriptor, and nothing behind the variables has changed. -/
structure Cat.Variables (mem₀ : ℕ → UInt8) (fd : ℕ) (mem : ℕ → UInt8) : Prop where
  fd_eq : loadInt mem fdOffset = fd
  behind : ∀ i, cntOffset + 4 ≤ i → mem i = mem₀ i

/-- Behind `getargs` the first byte of `fd` is cleared, and nothing else behind the buffer
has changed. -/
def Cat.Terminated (mem₀ mem : ℕ → UInt8) : Prop :=
  ∀ i, fdOffset ≤ i → mem i = Function.update mem₀ fdOffset 0 i

/-- Where `cat` stands with `n` calls to go: chunks were written, and the others are still
to be read. -/
inductive Cat.At (m : Machine) (s₀ : Kernel) (mem₀ : ℕ → UInt8) (name : List UInt8)
    (found : Option ℕ) (cs : List (List UInt8)) : ℕ → Config Cat Call Reply Kernel → Prop where
  | args {s t} (hs : Untouched s₀ s) (ht : written t = []) :
      Cat.At m s₀ mem₀ name found cs (2 * cs.length + 3) ⟨.args mem₀, s, t⟩
  | openFile {s t mem} (hs : Untouched s₀ s) (hbuf : HoldsString 0 mem name)
      (hmem : Cat.Terminated mem₀ mem) (ht : written t = []) :
      Cat.At m s₀ mem₀ name found cs (2 * cs.length + 2) ⟨.openFile mem, s, t⟩
  | readFile {s t mem fd done rest} (hfd : found = some fd) (hmem : Cat.Variables mem₀ fd mem)
      (hcs : cs = done ++ rest) (hd : Delivers m 1024 fd (s.files fd) rest)
      (ht : written t = done.flatten) :
      Cat.At m s₀ mem₀ name found cs (2 * rest.length + 1) ⟨.readFile mem, s, t⟩
  | writeFile {s t mem fd chunk done rest} (hfd : found = some fd)
      (hmem : Cat.Variables mem₀ fd mem) (hcnt : loadInt mem cntOffset = chunk.length)
      (hcs : cs = done ++ chunk :: rest) (hbuf : (List.range chunk.length).map mem = chunk)
      (hd : Delivers m 1024 fd (s.files fd) rest) (ht : written t = done.flatten) :
      Cat.At m s₀ mem₀ name found cs (2 * rest.length + 2) ⟨.writeFile mem, s, t⟩
  | message {s t} (hfd : found = none) (ht : written t = []) :
      Cat.At m s₀ mem₀ name found cs 1 ⟨.message notFound 2, s, t⟩
  | ended {s t} (ht : written t = (Cat.chunks found cs).flatten) :
      Cat.At m s₀ mem₀ name found cs 0 ⟨.ended (if found.isSome then 0 else 2), s, t⟩

structure Cat.Inv (m : Machine) (disturbs : Kernel → Kernel → Prop) (s₀ : Kernel)
    (mem₀ : ℕ → UInt8) (name : List UInt8) (found : Option ℕ) (cs : List (List UInt8)) (n : ℕ)
    (c : Config Cat Call Reply Kernel) : Prop where
  activity : Activity m s₀ c.state
  screen : Screen disturbs s₀.tty c.state c.trace
  place : Cat.At m s₀ mem₀ name found cs n c

variable {mem₀ mem : ℕ → UInt8} {name : List UInt8} {found : Option ℕ}

/-- A call that stores in the buffer only keeps the variables. -/
theorem Cat.Variables.congr {mem' : ℕ → UInt8} (h : Cat.Variables mem₀ fd mem)
    (heq : ∀ i, fdOffset ≤ i → mem' i = mem i) : Cat.Variables mem₀ fd mem' where
  fd_eq := (loadInt_congr fun i hi _ => heq i hi).trans h.fd_eq
  behind i hi := by
    have hfd : fdOffset ≤ i := le_trans (by decide) hi
    exact (heq i hfd).trans (h.behind i hi)

/-- The terminals are not part of what `cat` relies on. -/
theorem Cat.At.withTty {c : Config Cat Call Reply Kernel} (h : Cat.At m s₀ mem₀ name found cs n c)
    (y : Tty) : Cat.At m s₀ mem₀ name found cs n { c with state := { c.state with tty := y } } := by
  cases h with
  | args hs ht => exact .args hs ht
  | openFile hs hbuf hmem ht => exact .openFile hs hbuf hmem ht
  | readFile hfd hmem hcs hd ht => exact .readFile hfd hmem hcs hd ht
  | writeFile hfd hmem hcnt hcs hbuf hd ht => exact .writeFile hfd hmem hcnt hcs hbuf hd ht
  | message hfd ht => exact .message hfd ht
  | ended ht => exact .ended ht

/-- The program runs in a process with the argument `name`, for which `open` gives what
`found` and `cs` say. -/
structure Cat.Setup (m : Machine) (σ : TerminalId → List ℕ) (s₀ : Kernel) (name : List UInt8)
    (found : Option ℕ) (cs : List (List UInt8)) : Prop where
  sound : s₀.Sound σ
  live : s₀.Live s₀.cur
  args : s₀.HasArgs s₀.cur name
  length_lt : name.length < 128
  nul : (0 : UInt8) ∉ name
  opens : ∀ s, Untouched s₀ s → ∀ mem, HoldsString 0 mem name → Opens m 1024 s mem found cs
  found_eq : ∀ k, found = some k → k = 2
  short : ∀ chunk ∈ cs, chunk.length ≤ 1024

/-! ## The calls -/

section Calls

variable {t : List (Call × Reply)} {q : Call} {next : Reply → Cat} {done rest : List (List UInt8)}
  {chunk : List UInt8}

end Calls

theorem Cat.At.exit {c : Config Cat Call Reply Kernel} (h : Cat.At m s₀ mem₀ name found cs n c)
    {status : ℤ} (hact : Cat.act c.loc = .exit status) :
    status = (if found.isSome then 0 else 2) ∧
      written c.trace = (Cat.chunks found cs).flatten := by
  cases h with
  | ended ht =>
    cases hact
    exact ⟨rfl, ht⟩
  | _ => cases hact

end KudOS.User
