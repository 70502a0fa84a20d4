import KudOS.LineEditing
import KudOS.ListPositions

/-!
# Keys without a symbol

The driver takes every scan code up to 0x80 for a key press and stores whatever the
tables have for it. Escape, Tab and the star of the keypad store a NUL, which ends the
line for its reader, and codes behind the end of the tables are looked up nevertheless.
-/

namespace KudOS

/-- Ctrl, Alt, Shift and Caps Lock, pressed and released. -/
def modifierCodes : List UInt8 :=
  [lCtrl, lCtrlRelease, lAlt, lAltRelease, lshift, rshift, lshiftRelease, rshiftRelease, caplock,
    caplockRelease]

/-- Keys that edit the line. -/
def LineKey (sc : UInt8) : Prop := PrintableKey sc ∨ sc = backspaceCode

/-- All other codes, those of Enter and of the modifiers excepted. -/
def StrayCode (sc : UInt8) : Prop := ¬ LineKey sc ∧ sc ≠ enterCode ∧ sc ∉ modifierCodes

instance (sc : UInt8) : Decidable (LineKey sc) := inferInstanceAs (Decidable (_ ∨ _))
instance (sc : UInt8) : Decidable (StrayCode sc) := inferInstanceAs (Decidable (_ ∧ _))

/-- The codes without the stray ones. -/
def withoutStray (codes : List UInt8) : List UInt8 := codes.filter fun sc => ¬ StrayCode sc

/-- The index with which the handler reads `keys` and `cap_keys`, if it does. -/
def tableReads (sc : UInt8) : List ℕ := if sc ≤ keyRelease then [sc.toNat] else []

namespace Kernel

/-- The handler reads the tables within their bounds, and whatever `terminal_read` is then
asked for, it returns the same line as without the stray codes. -/
def Undisturbed (m : Machine) (fr : StackFrame) (s : Kernel) (codes : List UInt8) : Prop :=
  (∀ sc ∈ codes, ∀ i ∈ tableReads sc, i < keys.length) ∧
    ∃ s₁ s₂, s.pressAll m fr codes = .ok s₁ ∧ s.pressAll m fr (withoutStray codes) = .ok s₂ ∧
      ∀ count, ∃ line y₁ y₂, s₁.tty.terminalRead count = .ok (line, y₁) ∧
        s₂.tty.terminalRead count = .ok (line, y₂)

/-- At any moment of the sequence the line can be continued with keys that edit it, and
ended with Enter, as if the stray codes had not been there. -/
def NeverDisturbed (m : Machine) (fr : StackFrame) (s : Kernel) (codes : List UInt8) : Prop :=
  ∀ p, p <+: codes → ∀ tail, (∀ sc ∈ tail, LineKey sc) →
    Undisturbed m fr s (p ++ tail ++ [enterCode])

/-- A stray key is pressed only if the tables have an entry for it and the line is full. -/
def StrayWhenFull (cap : Bool) (codes : List UInt8) : Prop :=
  ∀ p sc, p ++ [sc] <+: codes → StrayCode sc → sc ≤ keyRelease →
    sc.toNat < keys.length ∧ (Edited.presses ⟨[], cap⟩ (withoutStray p)).line.length = buffLen

end Kernel

/-! ## Codes -/

theorem LineKey.editKey {sc : UInt8} (h : LineKey sc) : EditKey sc := by
  rcases h with h | h
  · exact .printable h
  · exact .backspace h

theorem withoutStray_concat_stray {sc : UInt8} (h : StrayCode sc) (codes : List UInt8) :
    withoutStray (codes ++ [sc]) = withoutStray codes := by
  simp [withoutStray, h]

theorem withoutStray_concat_lineKey {sc : UInt8} (h : LineKey sc) (codes : List UInt8) :
    withoutStray (codes ++ [sc]) = withoutStray codes ++ [sc] := by
  have hno : ¬ StrayCode sc := fun hs => hs.1 h
  simp [withoutStray, hno]

theorem withoutStray_append_lineKeys {tail : List UInt8} (h : ∀ sc ∈ tail, LineKey sc)
    (codes : List UInt8) : withoutStray (codes ++ tail) = withoutStray codes ++ tail := by
  have hkeep : ∀ sc ∈ tail, ¬ StrayCode sc := fun sc hsc hs => hs.1 (h sc hsc)
  simpa [withoutStray] using hkeep

theorem Kernel.strayWhenFull_nil (cap : Bool) : Kernel.StrayWhenFull cap [] := eachNext_nil

theorem Kernel.strayWhenFull_concat {cap : Bool} {codes : List UInt8} {sc : UInt8} :
    Kernel.StrayWhenFull cap (codes ++ [sc]) ↔ Kernel.StrayWhenFull cap codes ∧
      (StrayCode sc → sc ≤ keyRelease → sc.toNat < keys.length ∧
        (Edited.presses ⟨[], cap⟩ (withoutStray codes)).line.length = buffLen) := eachNext_concat

theorem not_strayCode_enter : ¬ StrayCode enterCode := fun h => h.2.1 rfl

/-! ## The handler on a stray code -/

/-- The stray codes for which the tables have an entry, and what the entry is. -/
theorem stray_entry {sc : UInt8} (h : StrayCode sc) (hlt : sc.toNat < 59) (cap : Bool) :
    sc ∈ ([0x00, 0x01, 0x0F, 0x37] : List UInt8) ∧ tableChar cap sc = 0 := by
  have hall : ∀ n < 59, StrayCode (UInt8.ofNat n) →
      UInt8.ofNat n ∈ ([0x00, 0x01, 0x0F, 0x37] : List UInt8) := by
    decide +kernel
  have hmem := hall sc.toNat hlt
  rw [UInt8.ofNat_toNat] at hmem
  have hentry : ∀ sc ∈ ([0x00, 0x01, 0x0F, 0x37] : List UInt8), ∀ cap, tableChar cap sc = 0 := by
    decide +kernel
  exact ⟨hmem h, hentry sc (hmem h) cap⟩

namespace Kernel

variable {m : Machine} {fr : StackFrame} {s s' : Kernel} {sc : UInt8}

theorem keyboardHandler_stray (h : StrayCode sc) (hlt : sc.toNat < 59) :
    s.keyboardHandler m fr sc = .ok (s.onTty fun y => y.press (.char 0)) := by
  have hmem := (stray_entry h hlt true).1
  have hkeys := (stray_entry h hlt false).2
  have hcaps := (stray_entry h hlt true).2
  have hnone : ∀ sc ∈ ([0x00, 0x01, 0x0F, 0x37] : List UInt8),
      sc ≤ keyRelease ∧ ∀ k ∈ [backspaceCode, lCtrl, lAlt, keyF1, keyF2, keyF3, lButton, cButton,
        lshift, rshift, caplock], sc ≠ k := by
    decide +kernel
  obtain ⟨hle, hne⟩ := hnone sc hmem
  have hpass : ∀ k ∈ [backspaceCode, lCtrl, lAlt, keyF1, keyF2, keyF3, lButton, cButton,
      lshift, rshift, caplock], ∀ b : Bool, ¬ (b = true ∧ sc = k) := fun k hk b hand =>
    hne k hk hand.2
  have hkey : keyAt m sc = 0 := by
    rw [keyAt, if_pos hlt]
    exact hkeys
  have hcap : capKeyAt m sc = 0 := by
    rw [capKeyAt, if_pos hlt]
    exact hcaps
  have hnl : ¬ (0 : UInt8) = newlineChar := by decide
  rw [keyboardHandler, if_pos hle, hkey, if_neg hnl, if_neg (hne _ (by simp)),
    if_neg (hne _ (by simp)), if_neg (hne _ (by simp)), if_neg (hpass keyF1 (by simp) _),
    if_neg (hpass keyF2 (by simp) _), if_neg (hpass keyF3 (by simp) _),
    if_neg (hpass lButton (by simp) _), if_neg (hpass cButton (by simp) _),
    if_neg (not_or.mpr ⟨hne _ (by simp), hne _ (by simp)⟩), if_neg (hne _ (by simp)), hcap]
  cases s.tty.capFlag <;> rfl

theorem keyboardHandler_stray_release (h : StrayCode sc) (hgt : ¬ sc ≤ keyRelease) :
    s.keyboardHandler m fr sc = .ok s := by
  have hmod := h.2.2
  simp only [modifierCodes, List.mem_cons, List.not_mem_nil, or_false, not_or] at hmod
  obtain ⟨-, h1, -, h2, -, -, h3, h4, -⟩ := hmod
  rw [keyboardHandler, if_neg hgt, if_neg h1, if_neg (not_or.mpr ⟨h3, h4⟩), if_neg h2]
  rfl

/-! ## A full line -/

/-- What is stored behind a full line is dropped. -/
theorem Editing.press_stray_full {e : Edited} {y : Tty} (h : Editing e y)
    (hfull : e.line.length = buffLen) :
    Editing e (y.press (.char 0)) ∧ (y.press (.char 0)).ctrlFlag = y.ctrlFlag := by
  have hadd : y.input.add 0 = y.input := by
    rw [InputLine.add, if_neg]
    have hlen : y.input.len = e.line.length := h.len
    omega
  have hecho : (y.addToBuffer 0).input.Echoable := by
    rw [Tty.input_addToBuffer, hadd]
    exact h.hold.echoable h.len
  have hinput : (y.press (.char 0)).input = y.input :=
    (Tty.input_printBuffer hecho).trans ((Tty.input_addToBuffer y 0).trans hadd)
  refine ⟨⟨?_, hinput ▸ h.hold, ?_⟩, ?_⟩
  · exact (congrArg (fun b : InputLine => b.modifiers.2.2) hinput).trans h.cap
  · exact (congrArg InputLine.len hinput).trans h.len
  · exact congrArg (fun b : InputLine => b.modifiers.1) hinput

/-- Sequences in which stray keys are pressed on a full line only: the buffer holds what
it would hold without them. -/
theorem editing_withoutStray (m : Machine) (fr : StackFrame) (h : EditStart s) {codes : List UInt8}
    (hcodes : ∀ sc ∈ codes, LineKey sc ∨ StrayCode sc)
    (hfull : StrayWhenFull s.tty.capFlag codes) :
    ∃ s', s.pressAll m fr codes = .ok s' ∧
      Editing (Edited.presses ⟨[], s.tty.capFlag⟩ (withoutStray codes)) s'.tty ∧
      s'.tty.ctrlFlag = false := by
  induction codes using List.reverseRecOn with
  | nil => exact ⟨s, rfl, ⟨rfl, InputLine.holds_nil _, h.len⟩, h.ctrl⟩
  | append_singleton codes sc ih =>
    obtain ⟨hfull, hlast⟩ := strayWhenFull_concat.mp hfull
    obtain ⟨s₁, hpress, hedit, hctrl⟩ := ih
      (fun sc' hsc' => hcodes sc' (List.mem_append_left _ hsc')) hfull
    rcases hcodes sc (List.mem_append_right _ List.mem_cons_self) with hkey | hstray
    · obtain ⟨s₂, hx, hedit₂, hctrl₂⟩ := hedit.press m fr hkey.editKey (Tty.plain_of_up hctrl sc)
      refine ⟨s₂, (pressAll_concat hpress).trans hx, ?_, hctrl₂.trans hctrl⟩
      rwa [withoutStray_concat_lineKey hkey, Edited.presses_concat]
    · rw [withoutStray_concat_stray hstray]
      by_cases hle : sc ≤ keyRelease
      · obtain ⟨hlt, hlen⟩ := hlast hstray hle
        obtain ⟨hedit₂, hctrl₂⟩ := hedit.press_stray_full hlen
        exact ⟨_, (pressAll_concat hpress).trans (keyboardHandler_stray hstray hlt), hedit₂,
          hctrl₂.trans hctrl⟩
      · exact ⟨s₁, (pressAll_concat hpress).trans (keyboardHandler_stray_release hstray hle), hedit,
          hctrl⟩

/-! ## Reading the line -/

theorem readLoop_take (b : ℕ → UInt8) (count : ℤ) {n i : ℕ} (hin : i + n = bufferMaxSize) :
    Tty.readLoop b count n i = (Tty.readLoop b 129 n i).take (count - i).toNat := by
  induction n generalizing i with
  | zero => simp [Tty.readLoop]
  | succ n ih =>
    rw [bufferMaxSize] at hin
    have hi : (i : ℤ) < 129 := by omega
    rw [Tty.readLoop, Tty.readLoop]
    by_cases hgo : b i ≠ 0 ∧ i < bufferMaxSize ∧ b i ≠ newlineChar
    · rw [if_pos (⟨hi, hgo⟩ : (i : ℤ) < 129 ∧ _)]
      by_cases hcount : (i : ℤ) < count
      · have hsucc : (count - i).toNat = (count - (i + 1 : ℕ)).toNat + 1 := by omega
        rw [if_pos (⟨hcount, hgo⟩ : (i : ℤ) < count ∧ _), hsucc, List.take_succ_cons,
          ih (by rw [bufferMaxSize]; omega)]
      · have hzero : (count - i).toNat = 0 := by omega
        rw [if_neg fun hc => hcount hc.1, hzero, List.take_zero]
    · rw [if_neg fun hc => hgo hc.2, if_neg fun hc => hgo hc.2, List.take_nil]

theorem Editing.read_take {e : Edited} {y : Tty} (h : Editing e y) (count : ℤ) :
    ∃ y', (y.press .enter).terminalRead count =
      .ok (e.line.take count.toNat ++ [newlineChar], y') := by
  obtain ⟨hold, hend⟩ := h.hold.addNewline h.len
  rw [← Tty.input_addToBuffer] at hold hend
  have hread : Tty.readLoop (y.press .enter).curBuffer 129 bufferMaxSize 0 = e.line :=
    hold.readLoop_eq (fun hlt => .inl (hend hlt)) (by decide)
  have hcount := readLoop_take (y.press .enter).curBuffer count (Nat.zero_add bufferMaxSize)
  rw [hread] at hcount
  have henter : (y.press .enter).enterFlag = true := rfl
  have hsub : (count - (0 : ℕ)).toNat = count.toNat := by omega
  rw [hsub] at hcount
  rw [Tty.terminalRead, if_pos henter, hcount]
  exact ⟨_, rfl⟩

/-! ## Undisturbed lines -/

theorem read_withoutStray (m : Machine) (fr : StackFrame) (h : EditStart s) {codes : List UInt8}
    (hcodes : ∀ sc ∈ codes, LineKey sc) :
    ∃ s', s.pressAll m fr (codes ++ [enterCode]) = .ok s' ∧ ∀ count, ∃ y,
      s'.tty.terminalRead count = .ok ((Edited.presses ⟨[], s.tty.capFlag⟩ codes).line.take
        count.toNat ++ [newlineChar], y) := by
  obtain ⟨s₁, hpress, hedit, hctrl⟩ := (edited_start h).presses m fr
    (fun sc hsc => (hcodes sc hsc).editKey) h.ctrl
  exact ⟨_, (pressAll_concat hpress).trans (keyboardHandler_enter hctrl), hedit.read_take⟩

theorem lineKey_of_mem_withoutStray {codes : List UInt8}
    (hcodes : ∀ sc ∈ codes, LineKey sc ∨ StrayCode sc) : ∀ sc ∈ withoutStray codes, LineKey sc := by
  intro sc hsc
  obtain ⟨hmem, hkeep⟩ := List.mem_filter.mp hsc
  exact (hcodes sc hmem).resolve_right (of_decide_eq_true hkeep)

theorem withoutStray_enter (codes : List UInt8) :
    withoutStray (codes ++ [enterCode]) = withoutStray codes ++ [enterCode] := by
  have hkeep := not_strayCode_enter
  simp [withoutStray, -enterCode, hkeep]

theorem StrayWhenFull.append {cap : Bool} {codes tail : List UInt8} (h : StrayWhenFull cap codes)
    (htail : ∀ sc ∈ tail, LineKey sc) : StrayWhenFull cap (codes ++ tail) := by
  induction tail using List.reverseRecOn with
  | nil => rwa [List.append_nil]
  | append_singleton tail sc ih =>
    rw [← List.append_assoc]
    refine strayWhenFull_concat.mpr ⟨ih fun sc' hsc' => htail sc' (List.mem_append_left _ hsc'), ?_⟩
    exact fun hstray => absurd (htail sc (List.mem_append_right _ List.mem_cons_self)) hstray.1

/-- The codes that are handled have an entry in the tables. -/
theorem StrayWhenFull.reads_lt {cap : Bool} {codes : List UInt8} (h : StrayWhenFull cap codes)
    (hcodes : ∀ sc ∈ codes, LineKey sc ∨ StrayCode sc) :
    ∀ sc ∈ codes ++ [enterCode], ∀ i ∈ tableReads sc, i < keys.length := by
  intro sc hsc i hi
  have hlen : keys.length = 59 := by decide +kernel
  rw [tableReads] at hi
  split at hi
  · rename_i hle
    obtain rfl := List.mem_singleton.mp hi
    rcases List.mem_append.mp hsc with hmem | hmem
    · rcases hcodes sc hmem with (hkey | rfl) | hstray
      · exact hlen ▸ hkey.lt
      · rw [hlen]
        decide
      · obtain ⟨p, r, rfl⟩ := List.append_of_mem hmem
        exact (h p sc ⟨r, by simp⟩ hstray hle).1
    · obtain rfl := List.mem_singleton.mp hmem
      rw [hlen]
      decide
  · cases hi

theorem undisturbed_of_full (h : EditStart s) {codes : List UInt8}
    (hcodes : ∀ sc ∈ codes, LineKey sc ∨ StrayCode sc) (hfull : StrayWhenFull s.tty.capFlag codes) :
    Undisturbed m fr s (codes ++ [enterCode]) := by
  obtain ⟨s₁, hpress, hedit, hctrl⟩ := editing_withoutStray m fr h hcodes hfull
  obtain ⟨s₂, hpress₂, hread₂⟩ := read_withoutStray m fr h
    (lineKey_of_mem_withoutStray hcodes)
  refine ⟨hfull.reads_lt hcodes, _, s₂, (pressAll_concat hpress).trans (keyboardHandler_enter hctrl),
    ?_, fun count => ?_⟩
  · rw [withoutStray_enter, hpress₂]
  · obtain ⟨y₁, hread₁⟩ := hedit.read_take count
    obtain ⟨y₂, hread⟩ := hread₂ count
    exact ⟨_, y₁, y₂, hread₁, hread⟩

/-! ## A NUL in the line -/

/-- The buffer goes on behind the line `l` with a NUL. -/
structure CutAfter (l : List UInt8) (b : InputLine) : Prop where
  hold : b.Holds l
  lt : l.length < b.len
  nul : b.buffer l.length = 0

theorem CutAfter.add {l : List UInt8} {b : InputLine} (h : CutAfter l b) (c : UInt8) :
    CutAfter l (b.add c) := by
  rw [InputLine.add]
  split
  · have hne : l.length ≠ b.len := h.lt.ne
    exact ⟨h.hold.update h.lt.le rfl, Nat.lt_succ_of_lt h.lt,
      (Function.update_of_ne hne _ _).trans h.nul⟩
  · exact h

/-- A stray key is pressed while there is room. -/
theorem Editing.cutAfter {e : Edited} {y : Tty} (h : Editing e y) (hroom : e.line.length < buffLen) :
    CutAfter e.line (y.input.add 0) := by
  have hlen : y.input.len = e.line.length := h.len
  rw [InputLine.add, hlen, if_pos hroom]
  exact ⟨h.hold.update le_rfl rfl, Nat.lt_succ_self _, Function.update_self ..⟩

theorem input_press_char {y : Tty} (h : y.input.Echoable) {c : UInt8} (hc : c ≠ newlineChar) :
    (y.press (.char c)).input = y.input.add c := by
  have hecho : (y.addToBuffer c).input.Echoable := by
    rw [Tty.input_addToBuffer]
    exact h.add hc
  exact (Tty.input_printBuffer hecho).trans (Tty.input_addToBuffer y c)

theorem ctrlFlag_press_char {y : Tty} (h : y.input.Echoable) {c : UInt8} (hc : c ≠ newlineChar) :
    (y.press (.char c)).ctrlFlag = y.ctrlFlag := by
  have hmods := congrArg InputLine.modifiers (input_press_char h hc)
  exact congrArg Prod.fst (hmods.trans (InputLine.modifiers_press y.input (.char c)))

/-- A reader takes the line up to the NUL. -/
theorem CutAfter.read {l : List UInt8} {y : Tty} (h : CutAfter l y.input) {count : ℤ}
    (hcount : 128 < count) :
    ∃ y', (y.press .enter).terminalRead count = .ok (l ++ [newlineChar], y') := by
  have hcut := h.add newlineChar
  rw [← Tty.input_addToBuffer] at hcut
  have hread : Tty.readLoop (y.press .enter).curBuffer count bufferMaxSize 0 = l :=
    hcut.hold.readLoop_eq (fun _ => .inr hcut.nul) hcount
  have henter : (y.press .enter).enterFlag = true := rfl
  rw [Tty.terminalRead, if_pos henter, hread]
  exact ⟨_, rfl⟩

/-- A stray key, a letter and Enter: the letter is lost to the reader. -/
theorem stray_cuts (m : Machine) (fr : StackFrame) {e : Edited} (h : Editing e s.tty)
    (hctrl : s.tty.ctrlFlag = false) (hstray : StrayCode sc) (hlt : sc.toNat < 59)
    (hroom : e.line.length < buffLen) {letter : UInt8} (hletter : PrintableKey letter) :
    ∃ s' y', s.pressAll m fr ([sc] ++ [letter] ++ [enterCode]) = .ok s' ∧
      s'.tty.terminalRead 129 = .ok (e.line ++ [newlineChar], y') := by
  let y₁ := s.tty.press (.char 0)
  have hnul : (0 : UInt8) ≠ newlineChar := by decide
  have hecho := h.hold.echoable h.len
  have hinput₁ : y₁.input = s.tty.input.add 0 := input_press_char hecho hnul
  have hecho₁ : y₁.input.Echoable := by
    rw [hinput₁]
    exact hecho.add hnul
  have hctrl₁ : y₁.ctrlFlag = false := (ctrlFlag_press_char hecho hnul).trans hctrl
  let c := tableChar y₁.capFlag letter
  have hprint : blankSpace ≤ c := hletter.tableChar _
  have hne : c ≠ newlineChar := ne_newline_of_printable hprint
  let y₂ := y₁.press (.char c)
  have hinput₂ : y₂.input = y₁.input.add c := input_press_char hecho₁ hne
  have hctrl₂ : y₂.ctrlFlag = false := (ctrlFlag_press_char hecho₁ hne).trans hctrl₁
  have hcut : CutAfter e.line y₂.input := by
    rw [hinput₂, hinput₁]
    exact (h.cutAfter hroom).add c
  obtain ⟨y', hread⟩ := hcut.read (by decide : (128 : ℤ) < 129)
  have hfirst : s.pressAll m fr [sc] = .ok { s with tty := y₁ } := by
    have hstart : s.pressAll m fr [] = .ok s := rfl
    exact (pressAll_concat hstart).trans (keyboardHandler_stray hstray hlt)
  have hsecond : s.pressAll m fr ([sc] ++ [letter]) = .ok { s with tty := y₂ } := by
    refine (pressAll_concat hfirst).trans ?_
    exact keyboardHandler_keystroke (Tty.plain_of_up hctrl₁ _) (hletter.keystroke _)
  exact ⟨_, y', (pressAll_concat hsecond).trans (keyboardHandler_enter hctrl₂), hread⟩

theorem pressAll_append {codes codes' : List UInt8} (h : s.pressAll m fr codes = .ok s') :
    s.pressAll m fr (codes ++ codes') = s'.pressAll m fr codes' := by
  rw [pressAll] at h ⊢
  rw [List.foldlM_append, h, ok_bind]
  rfl

/-- The line is disturbed if it has room. -/
theorem not_undisturbed_of_room (h : EditStart s) {codes : List UInt8}
    (hcodes : ∀ sc ∈ codes, LineKey sc ∨ StrayCode sc) (hfull : StrayWhenFull s.tty.capFlag codes)
    (hstray : StrayCode sc) (hlt : sc.toNat < 59)
    (hroom : (Edited.presses ⟨[], s.tty.capFlag⟩ (withoutStray codes)).line.length < buffLen)
    {letter : UInt8} (hletter : PrintableKey letter) :
    ¬ Undisturbed m fr s (codes ++ [sc] ++ [letter] ++ [enterCode]) := by
  rintro ⟨-, s₁, s₂, hpress₁, hpress₂, hsame⟩
  obtain ⟨s₀, hpress, hedit, hctrl⟩ := editing_withoutStray m fr h hcodes hfull
  obtain ⟨s₁', y', hrest, hread₁⟩ := stray_cuts m fr hedit hctrl hstray hlt hroom hletter
  have hseq : codes ++ [sc] ++ [letter] ++ [enterCode] =
      codes ++ ([sc] ++ [letter] ++ [enterCode]) := by simp
  have hline : ∀ sc ∈ [letter], LineKey sc := by
    intro sc hsc
    obtain rfl := List.mem_singleton.mp hsc
    exact Or.inl hletter
  rw [hseq, pressAll_append hpress, hrest] at hpress₁
  cases hpress₁
  have hkeys : ∀ sc ∈ withoutStray codes ++ [letter], LineKey sc := by
    intro sc hsc
    rcases List.mem_append.mp hsc with hmem | hmem
    · exact lineKey_of_mem_withoutStray hcodes sc hmem
    · exact hline sc hmem
  obtain ⟨s₂', hpress₂', hread₂⟩ := read_withoutStray m fr h hkeys
  rw [withoutStray_enter, withoutStray_append_lineKeys hline, withoutStray_concat_stray hstray,
    hpress₂'] at hpress₂
  cases hpress₂
  obtain ⟨line, y₁, y₂, hline₁, hline₂⟩ := hsame 129
  obtain ⟨y₃, hline₃⟩ := hread₂ 129
  rw [hread₁] at hline₁
  rw [hline₃] at hline₂
  have heq := (congrArg Prod.fst (Except.ok.inj hline₂)).trans
    (congrArg Prod.fst (Except.ok.inj hline₁)).symm
  -- one line has the letter, the other has not
  have hlen := congrArg List.length heq
  rw [Edited.presses_concat, Edited.press, if_neg hletter.ne_backspace, if_neg hletter.not_toggle,
    if_neg hletter.ne_caplockRelease, if_pos hroom] at hlen
  rw [buffLen] at hroom
  simp only [List.length_append, List.length_take, List.length_singleton] at hlen
  omega

/-- By induction on the sequence: the first stray key that is pressed too early shows. -/
theorem NeverDisturbed.strayWhenFull (h : EditStart s) {codes : List UInt8}
    (hcodes : ∀ sc ∈ codes, LineKey sc ∨ StrayCode sc) (hnever : NeverDisturbed m fr s codes) :
    StrayWhenFull s.tty.capFlag codes := by
  induction codes using List.reverseRecOn with
  | nil => exact strayWhenFull_nil _
  | append_singleton codes sc ih =>
    have hcodes' : ∀ sc ∈ codes, LineKey sc ∨ StrayCode sc := fun sc hsc =>
      hcodes sc (List.mem_append_left _ hsc)
    have hfull := ih hcodes' fun p hp => hnever p (hp.trans (List.prefix_append _ _))
    refine strayWhenFull_concat.mpr ⟨hfull, fun hstray hle => ?_⟩
    have hlt : sc.toNat < keys.length := by
      refine (hnever (codes ++ [sc]) List.prefix_rfl [] (by simp)).1 sc (by simp) _ ?_
      rw [tableReads, if_pos hle]
      exact List.mem_singleton_self _
    refine ⟨hlt, ?_⟩
    by_contra hne
    obtain ⟨s₀, -, hedit, -⟩ := editing_withoutStray m fr h hcodes' hfull
    have hletter : PrintableKey 0x1E := by decide +kernel
    refine not_undisturbed_of_room h hcodes' hfull hstray hlt
      (Nat.lt_of_le_of_ne hedit.hold.length_le hne) hletter
      (hnever (codes ++ [sc]) List.prefix_rfl [0x1E] fun sc hsc => ?_)
    obtain rfl := List.mem_singleton.mp hsc
    exact Or.inl hletter

/-- Stray codes never disturb a line exactly if they are releases, or presses with an
entry in the tables on a full line. -/
theorem neverDisturbed_iff (h : EditStart s) {codes : List UInt8}
    (hcodes : ∀ sc ∈ codes, LineKey sc ∨ StrayCode sc) :
    NeverDisturbed m fr s codes ↔ StrayWhenFull s.tty.capFlag codes := by
  constructor
  · exact fun hnever => hnever.strayWhenFull h hcodes
  · intro hfull p hp tail htail
    have hp' : StrayWhenFull s.tty.capFlag p := EachNext.of_prefix hfull hp
    refine undisturbed_of_full h (fun sc hsc => ?_) (hp'.append htail)
    rcases List.mem_append.mp hsc with hmem | hmem
    · exact hcodes sc (hp.subset hmem)
    · exact Or.inl (htail sc hmem)

/-- As many letters as a line holds. -/
def fullLine : List UInt8 := List.replicate 128 0x1E

/-- Tab is pressed on a full line, and keys with and without a symbol are released. -/
theorem tab_neverDisturbs :
    NeverDisturbed shellMachine blankFrame bootKernel (fullLine ++ [0x0F] ++ [0x9E] ++ [0x81]) := by
  have hletters : ∀ sc ∈ fullLine, LineKey sc := by
    intro sc hsc
    rw [List.eq_of_mem_replicate hsc]
    decide +kernel
  have hcodes : ∀ sc ∈ fullLine ++ [0x0F] ++ [0x9E] ++ [0x81], LineKey sc ∨ StrayCode sc := by
    intro sc hsc
    rw [List.append_assoc, List.append_assoc] at hsc
    rcases List.mem_append.mp hsc with hmem | hmem
    · exact Or.inl (hletters sc hmem)
    · have hrest : ∀ sc ∈ ([0x0F, 0x9E, 0x81] : List UInt8), StrayCode sc := by decide +kernel
      exact Or.inr (hrest sc hmem)
  refine (neverDisturbed_iff ⟨rfl, rfl⟩ hcodes).mpr ?_
  refine strayWhenFull_concat.mpr ⟨strayWhenFull_concat.mpr ⟨strayWhenFull_concat.mpr ⟨?_, ?_⟩, ?_⟩, ?_⟩
  · exact (strayWhenFull_nil _).append hletters
  · exact fun _ _ => ⟨by decide +kernel, by decide +kernel⟩
  · exact fun _ hle => absurd hle (by decide)
  · exact fun _ hle => absurd hle (by decide)

/-- The letter a, Escape, the letter b and Enter: the b is lost. -/
theorem escape_disturbs :
    ¬ Undisturbed shellMachine blankFrame bootKernel [0x1E, 0x01, 0x30, 0x1C] := by
  have hcodes : ∀ sc ∈ ([0x1E] : List UInt8), LineKey sc ∨ StrayCode sc := by decide +kernel
  have hletters : ∀ sc ∈ ([0x1E] : List UInt8), LineKey sc := by decide +kernel
  have hstray : StrayCode 0x01 := by decide +kernel
  have hletter : PrintableKey 0x30 := by decide +kernel
  exact not_undisturbed_of_room ⟨rfl, rfl⟩ hcodes ((strayWhenFull_nil _).append hletters) hstray
    (by decide) (by decide +kernel) hletter

end Kernel
end KudOS
