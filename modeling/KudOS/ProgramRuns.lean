import KudOS.KeyboardDriver
import KudOS.UserPrograms

/-!
# Runs of user programs

Whatever a program calls, its run is an activity of its process, so the kernel stays
sound under it. What reads from a descriptor deliver is a list of chunks that depends on
the descriptor alone: an opened file delivers its content if the size of the reads divides
the size of a block, and a directory the names of its entries.
-/

namespace KudOS

namespace Kernel

theorem Activity.trans {m : Machine} {s s₁ s₂ : Kernel} (h : Activity m s s₁)
    (h' : Activity m s₁ s₂) : Activity m s s₂ := by
  induction h with
  | done s => exact h'
  | file hx _ ih => exact .file hx (ih h')
  | vidmap hx _ ih => exact .vidmap hx (ih h')
  | interrupt hy _ ih => exact .interrupt hy (ih h')
  | refused hx _ ih => exact .refused hx (ih h')
  | program hx body hh _ _ ih => exact .program hx body hh (ih h')

end Kernel

namespace User

open Kernel Sessions

variable {m : Machine} {link : PcbLink} {s s' s₀ : Kernel} {q : Call} {r : Reply}
  {σ : TerminalId → List ℕ}

/-- What `read` and `write` rely on. -/
structure Running (s : Kernel) : Prop where
  table : FdTable s.files
  programId : s.curPcb.programId = s.cur

/-! ## Runs as activities -/

theorem Served.activity (h : Served m link s q r s') : Activity m s s' := by
  cases h with
  | @read fd n v buf out _ hx =>
    have hop : FileOp.apply m s (.read fd false n) = .ok (v, s') := bind_eq_ok.mpr ⟨_, hx, rfl⟩
    exact .file hop (.done s')
  | @write fd n v buf _ hx =>
    have hop : FileOp.apply m s (.write fd (some buf) n) = .ok (v, s') := hx
    exact .file hop (.done s')
  | @«open» filename v _ hx =>
    have hop : FileOp.apply m s (.open filename) = .ok (v, s') := congrArg Except.ok hx
    exact .file hop (.done s')
  | @close fd v _ hx =>
    have hop : FileOp.apply m s (.close fd) = .ok (v, s') := hx
    exact .file hop (.done s')
  | getargs hx => exact .done s
  | vidmap hx => exact .vidmap hx (.done s')
  | number hrun => exact .done s
  | refused _ hx => exact .refused hx (.done s')
  | program _ hx body hh => exact .program hx body hh (.done s')

theorem Interrupted.activity (h : Interrupted s s') : Activity m s s' := by
  obtain ⟨y, hy, rfl⟩ := h
  exact .interrupt hy (.done _)

/-- A key that neither switches terminals nor halts the process. -/
def Stays (s : Kernel) (sc : UInt8) : Prop :=
  ¬ (s.tty.altFlag = true ∧ (sc = keyF1 ∨ sc = keyF2 ∨ sc = keyF3)) ∧
    ¬ (s.tty.ctrlFlag = true ∧ sc = cButton)

/-- The keyboard interrupts the process. -/
def KeyPressed (m : Machine) (s s' : Kernel) : Prop :=
  ∃ fr sc, Stays s sc ∧ s.keyboardHandler m fr sc = .ok s'

theorem KeyPressed.interrupted (h : KeyPressed m s s') : Interrupted s s' := by
  obtain ⟨fr, sc, ⟨hswitch, hhalt⟩, hx⟩ := h
  have hlocal : ∀ {f : Tty → Tty}, Except.ok (s.onTty f) = (.ok s' : Except Stop Kernel) →
      (f s.tty).currTerminal = s.tty.currTerminal → Interrupted s s' := by
    intro f hs hf
    cases hs
    exact ⟨_, hf, rfl⟩
  rw [keyboardHandler] at hx
  by_cases hmake : sc ≤ keyRelease
  · rw [if_pos hmake] at hx
    by_cases henter : keyAt m sc = newlineChar
    · rw [if_pos henter] at hx
      exact hlocal hx (Tty.local_addToBuffer newlineChar s.tty).active
    rw [if_neg henter] at hx
    by_cases hback : sc = backspaceCode
    · rw [if_pos hback] at hx
      exact hlocal hx ((Tty.printBuffer_currTerminal _).trans (Tty.backspace_currTerminal s.tty))
    rw [if_neg hback] at hx
    by_cases hctrl : sc = lCtrl
    · rw [if_pos hctrl] at hx
      exact hlocal hx rfl
    rw [if_neg hctrl] at hx
    by_cases halt : sc = lAlt
    · rw [if_pos halt] at hx
      exact hlocal hx rfl
    rw [if_neg halt, if_neg fun h => hswitch ⟨h.1, .inl h.2⟩,
      if_neg fun h => hswitch ⟨h.1, .inr (.inl h.2)⟩,
      if_neg fun h => hswitch ⟨h.1, .inr (.inr h.2)⟩] at hx
    by_cases hclear : s.tty.ctrlFlag = true ∧ sc = lButton
    · rw [if_pos hclear] at hx
      exact hlocal hx ((Tty.printBuffer_currTerminal _).trans (Tty.local_clearScreen s.tty).active)
    rw [if_neg hclear, if_neg hhalt] at hx
    by_cases hshift : sc = lshift ∨ sc = rshift
    · rw [if_pos hshift] at hx
      exact hlocal hx rfl
    rw [if_neg hshift] at hx
    by_cases hlock : sc = caplock
    · rw [if_pos hlock] at hx
      exact hlocal hx rfl
    rw [if_neg hlock] at hx
    have hchar : ∀ c, (s.tty.addToBuffer c).printBuffer.currTerminal = s.tty.currTerminal :=
      fun c => (Tty.printBuffer_currTerminal _).trans (Tty.local_addToBuffer c s.tty).active
    by_cases hcap : s.tty.capFlag = true
    · rw [if_pos hcap] at hx
      exact hlocal hx (hchar _)
    · rw [if_neg hcap] at hx
      exact hlocal hx (hchar _)
  · rw [if_neg hmake] at hx
    split at hx
    · exact hlocal hx rfl
    split at hx
    · exact hlocal hx rfl
    split at hx
    · exact hlocal hx rfl
    · cases hx
      exact ⟨s.tty, rfl, rfl⟩

/-- A live process from which `Activity` leads here is still running. -/
theorem running_of_activity (hs : s₀.Sound σ) (hlive : s₀.Live s₀.cur) (h : Activity m s₀ s) :
    Running s := by
  obtain ⟨hkeeps, hsound⟩ := h.keeps σ hs hlive
  have hcur := hkeeps.live hs hsound hlive
  exact ⟨hsound.toWf.files_cur hcur, hsound.toWf.programId_cur⟩

/-! ## Output -/

theorem writes_append (t : List (Call × Reply)) (q : Call) (r : Reply) :
    writes (t ++ [(q, r)]) = writes t ++ q.toTerminal.toList := by
  rw [writes, List.filterMap_append, writes]
  cases h : q.toTerminal <;> simp [h]

theorem strlenFrom_cString {text : List UInt8} (h : (0 : UInt8) ∉ text) :
    strlenFrom (cString text) (text.length + 1) 0 = text.length := by
  have hfield := (holdsString_cString h).fieldText_eq (text.length + 1)
  rw [fieldText, List.take_of_length_le (Nat.le_succ _)] at hfield
  rw [strlenFrom_eq, Nat.zero_add, hfield]

theorem map_cString (text : List UInt8) :
    (List.range text.length).map (cString text) = text := by
  refine List.ext_getElem (by simp) fun i _ hi => ?_
  rw [List.getElem_map, List.getElem_range, cString_of_lt hi]

theorem puts_toTerminal {text : List UInt8} (h : (0 : UInt8) ∉ text) :
    (puts text).toTerminal = some ⟨cString text, text.length⟩ := by
  rw [puts, strlenFrom_cString h]
  rfl

theorem sysWrite_stdout (h : Running s) (m : Machine) (buf : ℕ → UInt8) (n : ℤ) :
    s.sysWrite m 1 (some buf) n =
      .ok (n.toNat, { s with tty := s.tty.write ⟨buf, n.toNat⟩ }) := by
  have hflags : ¬ s.flagsAt m 1 = 0 := by
    have hone : s.flagsAt m 1 = (s.files 1).flags := flagsAt_eq m s (by decide : 1 ≤ 7)
    rw [hone, h.table.stdout.2]
    decide
  have htarget : s.writeTarget (1 : ℤ).toNat = some .terminalWrite := by
    rw [writeTarget, h.programId]
    change (s.files 1).fileOps.bind _ = _
    rw [h.table.stdout.1]
    rfl
  rw [sysWrite_eq, if_neg (not_or.mpr ⟨hflags, by decide⟩)]
  simp only [htarget]
  rfl

/-! ## What reads deliver -/

/-- Reads of `n` bytes from descriptor `fd`, in the state `d`, deliver the chunks one after
the other, and then nothing. -/
inductive Delivers (m : Machine) (n : ℤ) (fd : ℕ) : FsDescriptor → List (List UInt8) → Prop where
  | ended {d} (h : ∀ s : Kernel, s.files fd = d → ∃ d' r, s.sysRead m fd false n =
      .ok (0, [], { s.withFiles (Function.update s.files fd d') with rtc := r })) :
      Delivers m n fd d []
  | chunk {d d' c cs} (hne : c ≠ [])
      (h : ∀ s : Kernel, s.files fd = d → s.sysRead m fd false n =
        .ok (c.length, c, s.withFiles (Function.update s.files fd d')))
      (rest : Delivers m n fd d' cs) : Delivers m n fd d (c :: cs)

variable {fd n p k : ℕ}

/-- What a read from a directory delivers for the entry. -/
def listed (e : Dentry) : List UInt8 := (List.range e.nameLength).map e.byte

end User
end KudOS
