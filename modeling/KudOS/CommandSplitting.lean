import KudOS.FileLookup
import KudOS.ProgramArguments

/-!
# Splitting a command

`check_command` in memory: three loops with one index copy the name and the arguments of
a command to two arrays. The loops neither know nor test the size of the arrays, which
are 128 bytes each in a PCB.
-/

namespace KudOS

/-- `check_command` for a string at `command` and arrays at the addresses `execName` and
`execArgs` of the memory `mem`, if each of its loops stops within `n` tests: the value
returned, and the memory after the call. -/
def checkCommandAt (n : ℕ) (command : Option (ℕ → UInt8)) (execName execArgs : ℕ)
    (mem : ℕ → UInt8) : Option (ℤ × (ℕ → UInt8)) :=
  match command with
  | none => some (-1, mem)
  | some command =>
    if command 0 = blankSpace then some (-1, mem)
    else do
      let (i, mem) ← scanLoop (fun i => command i ≠ blankSpace ∧ command i ≠ 0)
        (fun i mem => Function.update mem (execName + i) (command i)) n 0 mem
      let mem := Function.update mem (execName + i) 0
      let (i, _) ← scanLoop (fun i => command i = blankSpace) (fun _ u => u) n i ()
      let (_, j, mem) ← scanLoop (fun i => command i ≠ 0)
        (fun i (j, mem) => (j + 1, Function.update mem (execArgs + j) (command i))) n i (0, mem)
      return (0, Function.update mem (execArgs + j) 0)

/-- The name and the arguments of a command. -/
def commandName (l : List UInt8) : List UInt8 := headPart blankSpace l
def commandArgs (l : List UInt8) : List UInt8 := tailPart blankSpace l

variable {l name args : List UInt8} {command : ℕ → UInt8} {n : ℕ}

/-! ## The loops -/

theorem zero_notMem_commandName (h : (0 : UInt8) ∉ l) : (0 : UInt8) ∉ commandName l :=
  fun hz => h ((List.takeWhile_prefix _).mem hz)

theorem zero_notMem_commandArgs (h : (0 : UInt8) ∉ l) : (0 : UInt8) ∉ commandArgs l :=
  fun hz => h (List.mem_of_mem_drop ((List.dropWhile_suffix _).mem hz))

def spaceCount (l : List UInt8) : ℕ :=
  ((l.drop (commandName l).length).takeWhile fun c => decide (c = blankSpace)).length

theorem commandArgs_eq_drop (l : List UInt8) :
    commandArgs l = l.drop ((commandName l).length + spaceCount l) := by
  rw [commandArgs, tailPart, dropWhile_eq_drop, List.drop_drop]
  rfl

theorem length_command (l : List UInt8) :
    (commandName l).length + spaceCount l + (commandArgs l).length = l.length := by
  have hname : (commandName l).length ≤ l.length := (List.takeWhile_prefix _).length_le
  have hspaces : spaceCount l ≤ (l.drop (commandName l).length).length :=
    (List.takeWhile_prefix _).length_le
  rw [List.length_drop] at hspaces
  rw [commandArgs_eq_drop, List.length_drop]
  omega

theorem nameLoop_eq (hs : HoldsString 0 command l) (hn : l.length < n) (execName : ℕ)
    (mem : ℕ → UInt8) :
    scanLoop (fun i => command i ≠ blankSpace ∧ command i ≠ 0)
        (fun i mem => Function.update mem (execName + i) (command i)) n 0 mem =
      some ((commandName l).length, forLoop (commandName l).length
        (fun i mem => Function.update mem (execName + i) (command i)) mem) := by
  obtain ⟨hchars, hend⟩ := hs.takeWhile fun c => decide (c ≠ blankSpace)
  have hlen := length_command l
  have hscan := scanLoop_eq (p := fun i => command i ≠ blankSpace ∧ command i ≠ 0)
    (fun i mem => Function.update mem (execName + i) (command i)) mem (n := n) (i := 0)
    (k := (commandName l).length) (fun j hj => ?_) ?_ (by omega)
  · simpa only [Nat.zero_add] using hscan
  · rw [Nat.zero_add]
    have hj' := hchars j hj
    exact ⟨of_decide_eq_true hj'.1, hj'.2⟩
  · rw [Nat.zero_add]
    rintro ⟨hblank, hzero⟩
    rcases hend with hz | hb
    · exact hzero hz
    · exact of_decide_eq_false hb hblank

theorem spaceLoop_eq (hs : HoldsString 0 command l) (hn : l.length < n) :
    scanLoop (fun i => command i = blankSpace) (fun _ (u : Unit) => u) n (commandName l).length () =
      some ((commandName l).length + spaceCount l, ()) := by
  have hlen := length_command l
  obtain ⟨hchars, hend⟩ := (hs.drop (i := (commandName l).length) (by omega)).takeWhile
    fun c => decide (c = blankSpace)
  have hscan := scanLoop_eq (p := fun i => command i = blankSpace) (fun _ (u : Unit) => u) ()
    (n := n) (i := (commandName l).length) (k := spaceCount l) (fun j hj => ?_) ?_ (by omega)
  · exact hscan
  · exact of_decide_eq_true (hchars j hj).1
  · intro hblank
    rcases hend with hz | hb
    · rw [← spaceCount, hblank] at hz
      exact absurd hz (by decide)
    · exact of_decide_eq_false hb hblank

theorem forLoop_count {σ : Type*} (g : ℕ → ℕ → σ → σ) (k : ℕ) (s : σ) :
    forLoop k (fun i (p : ℕ × σ) => (p.1 + 1, g i p.1 p.2)) (0, s) =
      (k, forLoop k (fun i => g i i) s) := by
  induction k with
  | zero => rfl
  | succ k ih => rw [forLoop_succ, ih, forLoop_succ]

theorem argsLoop_eq (hs : HoldsString 0 command l) (hn : l.length < n) (execArgs : ℕ)
    (mem : ℕ → UInt8) :
    scanLoop (fun i => command i ≠ 0)
        (fun i (p : ℕ × (ℕ → UInt8)) => (p.1 + 1, Function.update p.2 (execArgs + p.1) (command i)))
        n ((commandName l).length + spaceCount l) (0, mem) =
      some (l.length, (commandArgs l).length, forLoop (commandArgs l).length
        (fun i mem => Function.update mem (execArgs + i)
          (command ((commandName l).length + spaceCount l + i))) mem) := by
  have hlen := length_command l
  have hscan := scanLoop_eq (p := fun i => command i ≠ 0)
    (fun i (p : ℕ × (ℕ → UInt8)) => (p.1 + 1, Function.update p.2 (execArgs + p.1) (command i)))
    (0, mem) (n := n) (i := (commandName l).length + spaceCount l) (k := (commandArgs l).length)
    (fun j hj => hs.char_ne (by omega)) ?_ (by omega)
  · rw [hscan, forLoop_count fun j i (mem : ℕ → UInt8) => Function.update mem (execArgs + i)
      (command ((commandName l).length + spaceCount l + j)), hlen]
  · rw [hlen, not_not]
    exact hs.terminated

/-! ## The whole function -/

theorem first_eq_blank_iff (hs : HoldsString 0 command l) :
    command 0 = blankSpace ↔ l.head? = some blankSpace := by
  cases l with
  | nil =>
    have hz : command 0 = 0 := hs.terminated
    rw [hz]
    decide
  | cons c l =>
    rw [hs.head.1, List.head?_cons, Option.some_inj]

theorem checkCommandAt_blank (hs : HoldsString 0 command l)
    (hfirst : l.head? = some blankSpace) (execName execArgs : ℕ) (mem : ℕ → UInt8) :
    checkCommandAt n (some command) execName execArgs mem = some (-1, mem) :=
  if_pos ((first_eq_blank_iff hs).mpr hfirst)

/-- The name is stored before the arguments. -/
theorem checkCommandAt_eq (hs : HoldsString 0 command l) (hfirst : l.head? ≠ some blankSpace)
    (hn : l.length < n) (execName execArgs : ℕ) (mem : ℕ → UInt8) :
    checkCommandAt n (some command) execName execArgs mem =
      some (0, storeText 0 execArgs (commandArgs l) (storeText 0 execName (commandName l) mem)) := by
  have hlen := length_command l
  have hname : ∀ i (h : i < (commandName l).length), command i = (commandName l)[i] := by
    intro i hi
    rw [hs.char i (by omega)]
    exact ((List.takeWhile_prefix _).getElem hi).symm
  have hargs : ∀ i (h : i < (commandArgs l).length),
      command ((commandName l).length + spaceCount l + i) = (commandArgs l)[i] := by
    intro i hi
    rw [hs.char _ (by omega)]
    simp only [commandArgs_eq_drop, List.getElem_drop]
  rw [checkCommandAt]
  simp only [if_neg (mt (first_eq_blank_iff hs).mp hfirst)]
  rw [nameLoop_eq hs hn]
  simp only [Option.bind_eq_bind, Option.bind_some, forLoop_storeText mem hname, spaceLoop_eq hs hn]
  have hloop := argsLoop_eq hs hn execArgs (storeText 0 execName (commandName l) mem)
  simp only [ne_eq] at hloop ⊢
  rw [hloop]
  simp only [Option.bind_some, forLoop_storeText _ hargs]
  rfl

/-- `check_command` splits `l` into `name` and `args`: wherever the command lies, it stores
these two strings to any two arrays that are large enough for them, and nothing else. -/
def Splits (l name args : List UInt8) : Prop :=
  ∀ (command : ℕ → UInt8) (n execName nameSize execArgs argsSize : ℕ) (mem : ℕ → UInt8),
    HoldsString 0 command l → l.length < n → name.length < nameSize → args.length < argsSize →
    (execName + nameSize ≤ execArgs ∨ execArgs + argsSize ≤ execName) →
    ∃ mem', checkCommandAt n (some command) execName execArgs mem = some (0, mem') ∧
      HoldsString 0 (fun i => mem' (execName + i)) name ∧
      HoldsString 0 (fun i => mem' (execArgs + i)) args ∧
      ∀ a, ¬ (execName ≤ a ∧ a < execName + nameSize) →
        ¬ (execArgs ≤ a ∧ a < execArgs + argsSize) → mem' a = mem a

theorem splits_parts (h0 : (0 : UInt8) ∉ l) (hfirst : l.head? ≠ some blankSpace) :
    Splits l (commandName l) (commandArgs l) := by
  intro command n execName nameSize execArgs argsSize mem hs hn hname hargs hapart
  refine ⟨_, checkCommandAt_eq hs hfirst hn execName execArgs mem, ?_, ?_, fun a ha ha' => ?_⟩
  · refine (storeText_holds execName mem (zero_notMem_commandName h0)).congr fun i hi => ?_
    exact storeText_of_not_mem _ (by omega)
  · exact storeText_holds execArgs _ (zero_notMem_commandArgs h0)
  · rw [storeText_of_not_mem _ (by omega), storeText_of_not_mem _ (by omega)]

/-- `check_command` splits a command in the only possible way, and splits the parts put
together again in the same way. -/
theorem command_splitting (h0 : (0 : UInt8) ∉ l) (hfirst : l.head? ≠ some blankSpace) :
    ∃ name args, Splits l name args ∧ IsSplit blankSpace l name args ∧
      (∀ name' args', IsSplit blankSpace l name' args' → name' = name ∧ args' = args) ∧
      (args ≠ [] → ∀ k, 0 < k → Splits (name ++ List.replicate k blankSpace ++ args) name args) := by
  have hsplit := isSplit_parts blankSpace l
  refine ⟨commandName l, commandArgs l, splits_parts h0 hfirst, hsplit, fun _ _ h => h.eq_parts,
    fun hargs k hk => ?_⟩
  have hne : commandName l ≠ [] := by
    intro hnil
    obtain ⟨j, hl, hj⟩ := hsplit.joined
    change headPart blankSpace l = [] at hnil
    rw [hnil] at hl
    cases j with
    | zero => exact hargs (hj rfl)
    | succ j => exact hfirst (by rw [hl]; rfl)
  have hjoined : IsSplit blankSpace (commandName l ++ List.replicate k blankSpace ++ commandArgs l)
      (commandName l) (commandArgs l) :=
    ⟨hsplit.name_free, hsplit.args_head, k, rfl, fun hk0 => absurd hk0 hk.ne'⟩
  have hname : commandName _ = commandName l := hjoined.eq_parts.1.symm
  have hrest : commandArgs _ = commandArgs l := hjoined.eq_parts.2.symm
  have hsplits := splits_parts
    (l := commandName l ++ List.replicate k blankSpace ++ commandArgs l) ?_ ?_
  · rwa [hname, hrest] at hsplits
  · intro hz
    simp only [List.mem_append] at hz
    rcases hz with (hz | hz) | hz
    · exact zero_notMem_commandName h0 hz
    · exact absurd (List.eq_of_mem_replicate hz) (by decide)
    · exact zero_notMem_commandArgs h0 hz
  · obtain ⟨c, cs, hcs⟩ := List.exists_cons_of_ne_nil hne
    rw [hcs]
    intro hc
    have hfree := hsplit.name_free
    change blankSpace ∉ commandName l at hfree
    rw [hcs] at hfree
    exact hfree (by rw [← Option.some.inj hc]; exact List.mem_cons_self)

/-- Two spaces before the arguments and one between them. -/
theorem spacedCommand_splits : Splits (literal "ls  a b") (literal "ls") (literal "a b") := by
  obtain ⟨name, args, hsplits, -, hunique, -⟩ :=
    command_splitting (l := literal "ls  a b") (by decide +kernel) (by decide +kernel)
  have hsplit : IsSplit blankSpace (literal "ls  a b") (literal "ls") (literal "a b") :=
    ⟨by decide +kernel, by decide +kernel, 2, by decide +kernel, fun h => absurd h (by decide)⟩
  obtain ⟨rfl, rfl⟩ := hunique _ _ hsplit
  exact hsplits

/-! ## The PCBs after the call -/

def cmdNameOffset : ℕ := 153

/-- A string and its terminator fit an array of a PCB. -/
def FitsArray (l : List UInt8) : Prop := l.length < maxCmdLength

theorem byte_cmdName (link : PcbLink) (p : Pcb) {k : ℕ} (hk : k < 128) :
    p.byte link (153 + k) = p.cmdName k := by
  have hsub : 153 + k - 153 = k := by omega
  rw [Pcb.byte]
  repeat rw [if_neg (by omega)]
  rw [if_pos (by omega), hsub]

/-- In front of and behind the two arrays a PCB does not depend on them. -/
theorem byte_withCommand (link : PcbLink) (p : Pcb) (f g : ℕ → UInt8) {o : ℕ}
    (ho : o < 153 ∨ 409 ≤ o) :
    Pcb.byte link { p with cmdName := f, cmdArgs := g } o = p.byte link o := by
  rcases ho with hlt | hge
  · unfold Pcb.byte
    simp only [if_pos hlt]
  · rw [Kernel.byte_tail link _ hge, Kernel.byte_tail link _ hge]

theorem pcbsByte_add (link : PcbLink) (pcbs : ℕ → Pcb) {i o : ℕ} (hi : i < maxProcesses)
    (ho : o < pcbSize) : pcbsByte link pcbs (i * pcbSize + o) = (pcbs i).byte link o := by
  rw [pcbSize] at ho
  have hdiv : (i * 416 + o) / 416 = i := by omega
  have hmod : (i * 416 + o) % 416 = o := by omega
  rw [pcbsByte, pcbSize, hdiv, hmod, if_pos hi]

/-- A string stored to an array of memory is stored to the array of the model. -/
theorem storeText_field (p : ℕ) (l : List UInt8) (a mem : ℕ → UInt8) {k : ℕ}
    (hmem : mem (p + k) = a k) : storeText 0 p l mem (p + k) = storeString a l k := by
  rw [storeText, storeString, memcpy]
  rcases Nat.lt_or_ge l.length k with hlt | hle
  · rw [if_neg (by omega), if_neg (by omega), hmem]
  · rw [if_pos (by omega), if_pos (by omega), Nat.add_sub_cancel_left]
    rfl

/-- With parts that fit, the call leaves the array `pcbs` as `execute` continues with it. -/
theorem checkCommandAt_pcbs (link : PcbLink) (pcbs : ℕ → Pcb) {i : ℕ} (hi : i < maxProcesses)
    (hs : HoldsString 0 command l) (hfirst : l.head? ≠ some blankSpace) (hn : l.length < n)
    (hname : FitsArray (commandName l)) (hargs : FitsArray (commandArgs l)) :
    checkCommandAt n (some command) (i * pcbSize + cmdNameOffset) (i * pcbSize + cmdArgsOffset)
        (pcbsByte link pcbs) =
      some (0, pcbsByte link (Function.update pcbs i { pcbs i with
        cmdName := storeString (pcbs i).cmdName (commandName l)
        cmdArgs := storeString (pcbs i).cmdArgs (commandArgs l) })) := by
  rw [checkCommandAt_eq hs hfirst hn]
  unfold FitsArray at hname hargs
  rw [maxCmdLength] at hname hargs
  congr 2
  funext a
  by_cases ha : i * pcbSize ≤ a ∧ a < i * pcbSize + pcbSize
  · obtain ⟨o, rfl⟩ := Nat.exists_eq_add_of_le ha.1
    have ho : o < pcbSize := Nat.lt_of_add_lt_add_left ha.2
    rw [pcbsByte_add link _ hi ho, Function.update_self]
    rw [pcbSize] at ho ⊢
    rw [cmdNameOffset, cmdArgsOffset]
    by_cases hout : o < 153 ∨ 409 ≤ o
    · rw [storeText_of_not_mem _ (by omega), storeText_of_not_mem _ (by omega),
        byte_withCommand link _ _ _ hout]
      exact pcbsByte_add link pcbs hi ho
    · rcases Nat.lt_or_ge o 281 with hlt | hge
      · obtain ⟨k, rfl⟩ := Nat.exists_eq_add_of_le (by omega : 153 ≤ o)
        rw [storeText_of_not_mem _ (by omega), byte_cmdName link _ (by omega), ← Nat.add_assoc]
        refine storeText_field _ _ _ _ ?_
        rw [Nat.add_assoc]
        exact (pcbsByte_add link pcbs hi ho).trans (byte_cmdName link _ (by omega))
      · obtain ⟨k, rfl⟩ := Nat.exists_eq_add_of_le hge
        rw [Kernel.byte_cmdArgs link _ (by omega), ← Nat.add_assoc]
        refine storeText_field _ _ _ _ ?_
        rw [storeText_of_not_mem _ (by omega), Nat.add_assoc]
        exact (pcbsByte_add link pcbs hi ho).trans (Kernel.byte_cmdArgs link _ (by omega))
  · have hout : a < i * 416 ∨ i * 416 + 416 ≤ a :=
      (not_and_or.mp ha).imp Nat.lt_of_not_le Nat.le_of_not_lt
    clear ha
    have hfield : ∀ o k, o + k < 416 → ¬ (i * 416 + o ≤ a ∧ a ≤ i * 416 + o + k) := by omega
    have hne : ¬ a / 416 = i := by omega
    rw [cmdNameOffset, cmdArgsOffset, pcbSize, storeText_of_not_mem _ (hfield _ _ (by omega)),
      storeText_of_not_mem _ (hfield _ _ (by omega)), pcbsByte, pcbsByte, pcbSize,
      Function.update_of_ne hne]

/-! ## The arrays of a PCB -/

/-- The address lies in `cmd_name` or `cmd_args` of `pcbs[i]`. -/
def InCommandArrays (i a : ℕ) : Prop :=
  i * pcbSize + cmdNameOffset ≤ a ∧ a < i * pcbSize + cmdNameOffset + maxCmdLength ∨
    i * pcbSize + cmdArgsOffset ≤ a ∧ a < i * pcbSize + cmdArgsOffset + maxCmdLength

/-- What `execute` relies on when it calls `check_command` with the arrays of `pcbs[i]`.
The memory starts with the array `pcbs`. -/
structure StaysInPcb (l : List UInt8) (i : ℕ) (mem : ℕ → UInt8) (r : ℤ) (mem' : ℕ → UInt8) :
    Prop where
  inside : ∀ a, ¬ InCommandArrays i a → mem' a = mem a
  kept : r = 0 → ∀ name args, IsSplit blankSpace l name args →
    HoldsString 0 (fun k => mem' (i * pcbSize + cmdNameOffset + k)) name ∧
      HoldsString 0 (fun k => mem' (i * pcbSize + cmdArgsOffset + k)) args
  refused : ∀ name args, IsSplit blankSpace l name args → ¬ (FitsArray name ∧ FitsArray args) →
    r = -1 ∧ mem' = mem

/-- The command is handled within the arrays of every PCB. -/
def CommandFits (l : List UInt8) : Prop :=
  ∀ i < maxProcesses, ∀ command n mem, HoldsString 0 command l → l.length < n →
    ∃ r mem', checkCommandAt n (some command) (i * pcbSize + cmdNameOffset)
      (i * pcbSize + cmdArgsOffset) mem = some (r, mem') ∧ StaysInPcb l i mem r mem'

theorem CommandFits.parts_fit (h : CommandFits l) (h0 : (0 : UInt8) ∉ l)
    (hfirst : l.head? ≠ some blankSpace) : FitsArray (commandName l) ∧ FitsArray (commandArgs l) := by
  by_contra hlong
  obtain ⟨r, mem', hr, hstays⟩ := h 0 (by decide) (cString l) (l.length + 1) (fun _ => 0)
    (holdsString_cString h0) (Nat.lt_succ_self _)
  have hrefused := (hstays.refused _ _ (isSplit_parts blankSpace l) hlong).1
  rw [checkCommandAt_eq (holdsString_cString h0) hfirst (Nat.lt_succ_self _)] at hr
  have hzero : (0 : ℤ) = r := congrArg Prod.fst (Option.some.inj hr)
  omega

theorem splits_staysInPcb (h0 : (0 : UInt8) ∉ l) (hfirst : l.head? ≠ some blankSpace)
    (hname : FitsArray (commandName l)) (hargs : FitsArray (commandArgs l)) : CommandFits l := by
  intro i _ command n mem hs hn
  have hapart : i * pcbSize + cmdNameOffset + maxCmdLength ≤ i * pcbSize + cmdArgsOffset := by
    rw [cmdNameOffset, cmdArgsOffset, maxCmdLength, Nat.add_assoc]
  obtain ⟨mem', hr, hholds, hholds', hother⟩ := splits_parts h0 hfirst command n
    (i * pcbSize + cmdNameOffset) maxCmdLength (i * pcbSize + cmdArgsOffset) maxCmdLength mem hs hn
    hname hargs (Or.inl hapart)
  refine ⟨0, mem', hr, fun a ha => ?_, fun _ name args hsplit => ?_, fun name args hsplit hlong => ?_⟩
  · exact hother a (fun hin => ha (Or.inl hin)) fun hin => ha (Or.inr hin)
  · obtain ⟨rfl, rfl⟩ := hsplit.eq_parts
    exact ⟨hholds, hholds'⟩
  · obtain ⟨rfl, rfl⟩ := hsplit.eq_parts
    exact absurd ⟨hname, hargs⟩ hlong

/-- A command stays in the arrays of the PCB exactly if it begins with a space or both its
parts fit them. -/
theorem commandFits_iff (h0 : (0 : UInt8) ∉ l) : CommandFits l ↔
    l.head? = some blankSpace ∨ FitsArray (commandName l) ∧ FitsArray (commandArgs l) := by
  constructor
  · intro h
    by_cases hfirst : l.head? = some blankSpace
    · exact Or.inl hfirst
    · exact Or.inr (h.parts_fit h0 hfirst)
  · intro h
    by_cases hfirst : l.head? = some blankSpace
    · intro i _ command n mem hs _
      refine ⟨-1, mem, checkCommandAt_blank hs hfirst _ _ mem, fun _ _ => rfl, fun hr => ?_,
        fun _ _ _ _ => ⟨rfl, rfl⟩⟩
      omega
    · obtain ⟨hname, hargs⟩ := h.resolve_left hfirst
      exact splits_staysInPcb h0 hfirst hname hargs

/-- The command of the first shell. -/
theorem shellCommand_fits : CommandFits shellCommand :=
  (commandFits_iff (by decide +kernel)).mpr (Or.inr (by
    unfold FitsArray
    decide +kernel))

/-- A line of 128 letters, which the line buffer holds. -/
theorem longCommand_not_fits : ¬ CommandFits (List.replicate 128 97) := by
  intro h
  have hfits := h.parts_fit (by decide +kernel) (by decide +kernel)
  unfold FitsArray at hfits
  exact absurd hfits.1 (by decide +kernel)

end KudOS
