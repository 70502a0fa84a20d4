import KudOS.CountedLoop
import KudOS.InterruptDrivers
import KudOS.ProtectedMode

/-!
# The descriptor tables

`idt_init` of `idt.c`, and the descriptors of `x86_desc.h`, `x86_desc.S` and `entry`, bit
by bit as the compiler lays the fields out.
-/

namespace KudOS.Tables

open Protected

/-! ## x86_desc.h -/

structure IdtDesc where
  offset_15_00 : BitVec 16
  segSelector : BitVec 16
  reserved4 : BitVec 8
  reserved3 : BitVec 1
  reserved2 : BitVec 1
  reserved1 : BitVec 1
  size : BitVec 1
  reserved0 : BitVec 1
  dpl : BitVec 2
  present : BitVec 1
  offset_31_16 : BitVec 16

def IdtDesc.val (d : IdtDesc) : BitVec 64 :=
  d.offset_31_16 ++ (d.present ++ (d.dpl ++
    ((d.reserved0 ++ d.size ++ d.reserved1 ++ d.reserved2 ++ d.reserved3) ++
    (d.reserved4 ++ (d.segSelector ++ d.offset_15_00)))))

/-- `SET_IDT_ENTRY`. -/
def setIdtEntry (str : IdtDesc) (handler : BitVec 32) : IdtDesc :=
  { str with
    offset_31_16 := ((handler &&& 0xFFFF0000) >>> 16).setWidth 16
    offset_15_00 := (handler &&& 0xFFFF).setWidth 16 }

structure SegDesc where
  segLim_15_00 : BitVec 16
  base_15_00 : BitVec 16
  base_23_16 : BitVec 8
  type : BitVec 4
  sys : BitVec 1
  dpl : BitVec 2
  present : BitVec 1
  segLim_19_16 : BitVec 4
  avail : BitVec 1
  reserved : BitVec 1
  opsize : BitVec 1
  granularity : BitVec 1
  base_31_24 : BitVec 8

def SegDesc.val (d : SegDesc) : BitVec 64 :=
  d.base_31_24 ++ (d.granularity ++ (d.opsize ++ (d.reserved ++ (d.avail ++ (d.segLim_19_16 ++
    (d.present ++ (d.dpl ++ ((d.sys ++ d.type) ++ (d.base_23_16 ++ (d.base_15_00 ++
      d.segLim_15_00))))))))))

/-- `SET_LDT_PARAMS` and `SET_TSS_PARAMS`, which are the same text. -/
def setParams (str : SegDesc) (addr lim : BitVec 32) : SegDesc :=
  { str with
    base_31_24 := ((addr &&& 0xFF000000) >>> 24).setWidth 8
    base_23_16 := ((addr &&& 0x00FF0000) >>> 16).setWidth 8
    base_15_00 := (addr &&& 0x0000FFFF).setWidth 16
    segLim_19_16 := ((lim &&& 0x000F0000) >>> 16).setWidth 4
    segLim_15_00 := (lim &&& 0x0000FFFF).setWidth 16 }

/-! ## idt.c -/

/-- Where the linker placed the handlers. -/
structure Handlers where
  exception : ℕ → BitVec 32
  keyboardWrapper : BitVec 32
  rtcHandler : BitVec 32
  schedulerWrapper : BitVec 32
  syscallHandler : BitVec 32

/-- The locals and the table. -/
structure IdtState where
  idtSet : IdtDesc
  idt : ℕ → BitVec 64

/-- `SET_IDT_ENTRY(idt_set, handler); idt[i] = idt_set;`. -/
def IdtState.install (s : IdtState) (i : ℕ) (handler : BitVec 32) : IdtState :=
  ⟨setIdtEntry s.idtSet handler, Function.update s.idt i (setIdtEntry s.idtSet handler).val⟩

/-- `idt_set.reserved3 = r;` and `idt_set.dpl = l;`. -/
def IdtState.setReserved3 (s : IdtState) (r : BitVec 1) : IdtState :=
  { s with idtSet := { s.idtSet with reserved3 := r } }

def IdtState.setDpl (s : IdtState) (l : BitVec 2) : IdtState :=
  { s with idtSet := { s.idtSet with dpl := l } }

def exceptionEntries (h : Handlers) (s : IdtState) : IdtState :=
  forLoop 19 (fun i s => (s.setReserved3 1).install i (h.exception i)) s

/-- `idt_init` with what its stack held at `idt_set`. -/
def idtInit (h : Handlers) (stack : IdtDesc) (idt : ℕ → BitVec 64) : ℕ → BitVec 64 :=
  let idtSet := { stack with
    segSelector := 0x0010, reserved0 := 0, reserved1 := 1, reserved2 := 1, reserved4 := 0
    present := 1, size := 1, dpl := 0 }
  let s := (exceptionEntries h ⟨idtSet, idt⟩).setReserved3 0
  let s := s.install 0x21 h.keyboardWrapper
  let s := s.install 0x28 h.rtcHandler
  let s := s.install 0x20 h.schedulerWrapper
  let s := (s.setReserved3 1).setDpl 3
  (s.install 0x80 h.syscallHandler).idt

/-! ## x86_desc.S and entry -/

/-- The descriptor of the LDT that `entry` builds. -/
def ldtDesc (ldt ldtSize : BitVec 32) : BitVec 64 :=
  (setParams ⟨0, 0, 0, 0x2, 0, 0, 1, 0, 0, 0, 1, 0, 0⟩ ldt ldtSize).val

/-- The descriptor of the TSS; `SET_TSS_PARAMS` overwrites the limits that `entry` set. -/
def tssDesc (tss tssSize : BitVec 32) : BitVec 64 :=
  (setParams ⟨(104 &&& 0x0000FFFF : BitVec 32).setWidth 16, 0, 0, 0x9, 0, 0, 1,
    (104 &&& 0x000F0000 : BitVec 32).setWidth 4, 0, 0, 0, 0, 0⟩ tss tssSize).val

def gdt (tss tssSize ldt ldtSize : BitVec 32) : ℕ → BitVec 64
  | 2 => 0x00CF9A000000FFFF
  | 3 => 0x00CF92000000FFFF
  | 4 => 0x00CFFA000000FFFF
  | 5 => 0x00CFF2000000FFFF
  | 6 => tssDesc tss tssSize
  | 7 => ldtDesc ldt ldtSize
  | _ => 0

/-! ## The fields, decoded -/

variable {d : IdtDesc} {e : SegDesc}

theorem decodeGate_val (d : IdtDesc) : decodeGate d.val =
    ⟨d.offset_31_16 ++ d.offset_15_00, d.segSelector,
      d.reserved0 ++ d.size ++ d.reserved1 ++ d.reserved2 ++ d.reserved3, d.dpl,
      d.present.getLsbD 0⟩ := by
  have hhigh : d.val.extractLsb' 48 16 = d.offset_31_16 := BitVec.extractLsb'_append_eq_left
  have hlow : d.val.extractLsb' 0 16 = d.offset_15_00 := by
    unfold IdtDesc.val
    iterate 6 rw [BitVec.extractLsb'_append_eq_of_add_le (by decide)]
    rw [BitVec.extractLsb'_eq_self]
  have hselector : d.val.extractLsb' 16 16 = d.segSelector := by
    unfold IdtDesc.val
    iterate 5 rw [BitVec.extractLsb'_append_eq_of_add_le (by decide)]
    exact BitVec.extractLsb'_append_eq_left
  have hkind : d.val.extractLsb' 40 5 =
      d.reserved0 ++ d.size ++ d.reserved1 ++ d.reserved2 ++ d.reserved3 := by
    unfold IdtDesc.val
    iterate 3 rw [BitVec.extractLsb'_append_eq_of_add_le (by decide)]
    exact BitVec.extractLsb'_append_eq_left
  have hdpl : d.val.extractLsb' 45 2 = d.dpl := by
    unfold IdtDesc.val
    iterate 2 rw [BitVec.extractLsb'_append_eq_of_add_le (by decide)]
    exact BitVec.extractLsb'_append_eq_left
  have hpresent : d.val.getLsbD 47 = d.present.getLsbD 0 := by
    unfold IdtDesc.val
    rw [BitVec.getLsbD_append, if_pos (by decide), BitVec.getLsbD_append, if_neg (by decide)]
  rw [decodeGate, hhigh, hlow, hselector, hkind, hdpl, hpresent]

theorem decodeSegment_val (e : SegDesc) : decodeSegment e.val =
    ⟨e.base_31_24 ++ e.base_23_16 ++ e.base_15_00, e.segLim_19_16 ++ e.segLim_15_00,
      e.sys ++ e.type, e.dpl, e.present.getLsbD 0, e.granularity.getLsbD 0⟩ := by
  have hbase₃ : e.val.extractLsb' 56 8 = e.base_31_24 := BitVec.extractLsb'_append_eq_left
  have hbase₂ : e.val.extractLsb' 32 8 = e.base_23_16 := by
    unfold SegDesc.val
    iterate 9 rw [BitVec.extractLsb'_append_eq_of_add_le (by decide)]
    exact BitVec.extractLsb'_append_eq_left
  have hbase₁ : e.val.extractLsb' 16 16 = e.base_15_00 := by
    unfold SegDesc.val
    iterate 10 rw [BitVec.extractLsb'_append_eq_of_add_le (by decide)]
    exact BitVec.extractLsb'_append_eq_left
  have hlimit₂ : e.val.extractLsb' 48 4 = e.segLim_19_16 := by
    unfold SegDesc.val
    iterate 5 rw [BitVec.extractLsb'_append_eq_of_add_le (by decide)]
    exact BitVec.extractLsb'_append_eq_left
  have hlimit₁ : e.val.extractLsb' 0 16 = e.segLim_15_00 := by
    unfold SegDesc.val
    iterate 11 rw [BitVec.extractLsb'_append_eq_of_add_le (by decide)]
    rw [BitVec.extractLsb'_eq_self]
  have hkind : e.val.extractLsb' 40 5 = e.sys ++ e.type := by
    unfold SegDesc.val
    iterate 8 rw [BitVec.extractLsb'_append_eq_of_add_le (by decide)]
    exact BitVec.extractLsb'_append_eq_left
  have hdpl : e.val.extractLsb' 45 2 = e.dpl := by
    unfold SegDesc.val
    iterate 7 rw [BitVec.extractLsb'_append_eq_of_add_le (by decide)]
    exact BitVec.extractLsb'_append_eq_left
  have hpresent : e.val.getLsbD 47 = e.present.getLsbD 0 := by
    unfold SegDesc.val
    iterate 6 rw [BitVec.getLsbD_append, if_pos (by decide)]
    rw [BitVec.getLsbD_append, if_neg (by decide)]
  have hgranular : e.val.getLsbD 55 = e.granularity.getLsbD 0 := by
    unfold SegDesc.val
    rw [BitVec.getLsbD_append, if_pos (by decide), BitVec.getLsbD_append, if_neg (by decide)]
  rw [decodeSegment, hbase₃, hbase₂, hbase₁, hlimit₂, hlimit₁, hkind, hdpl, hpresent, hgranular]

/-- A field cut out by a mask and a shift. -/
theorem masked_field {w mask : BitVec 32} {i n : ℕ} (h : ∀ j < n, mask.getLsbD (i + j) = true) :
    ((w &&& mask) >>> i).setWidth n = w.extractLsb' i n := by
  apply BitVec.eq_of_getLsbD_eq
  intro j hj
  rw [BitVec.getLsbD_setWidth, BitVec.getLsbD_ushiftRight, BitVec.getLsbD_and, h j hj,
    BitVec.getLsbD_extractLsb', Bool.and_true]

theorem masked_low {w mask : BitVec 32} {n : ℕ} (h : ∀ j < n, mask.getLsbD j = true) :
    (w &&& mask).setWidth n = w.extractLsb' 0 n := by
  rw [← masked_field (i := 0) fun j hj => (Nat.zero_add j).symm ▸ h j hj, BitVec.ushiftRight_zero]

theorem setIdtEntry_offset (str : IdtDesc) (handler : BitVec 32) :
    (setIdtEntry str handler).offset_31_16 ++ (setIdtEntry str handler).offset_15_00 = handler := by
  unfold setIdtEntry
  rw [masked_field (by decide), masked_low (by decide)]
  exact BitVec.extractLsb'_append_extractLsb'

theorem setParams_base (str : SegDesc) (addr lim : BitVec 32) :
    (setParams str addr lim).base_31_24 ++ (setParams str addr lim).base_23_16 ++
      (setParams str addr lim).base_15_00 = addr := by
  change ((addr &&& 0xFF000000) >>> 24).setWidth 8 ++ ((addr &&& 0x00FF0000) >>> 16).setWidth 8 ++
    (addr &&& 0x0000FFFF).setWidth 16 = addr
  rw [masked_field (by decide), masked_field (by decide), masked_low (by decide),
    BitVec.extractLsb'_append_extractLsb'_eq_extractLsb' (by decide)]
  exact BitVec.extractLsb'_append_extractLsb'

theorem setParams_limit (str : SegDesc) (addr lim : BitVec 32) :
    (setParams str addr lim).segLim_19_16 ++ (setParams str addr lim).segLim_15_00 =
      lim.setWidth 20 := by
  change ((lim &&& 0x000F0000) >>> 16).setWidth 4 ++ (lim &&& 0x0000FFFF).setWidth 16 = _
  rw [masked_field (by decide), masked_low (by decide),
    BitVec.extractLsb'_append_extractLsb'_eq_extractLsb' (by decide)]
  apply BitVec.eq_of_getLsbD_eq
  intro j hj
  rw [BitVec.getLsbD_extractLsb', BitVec.getLsbD_setWidth, Nat.zero_add]

theorem decodeSegment_setParams (str : SegDesc) (addr lim : BitVec 32) :
    decodeSegment (setParams str addr lim).val = ⟨addr, lim.setWidth 20, str.sys ++ str.type, str.dpl,
      str.present.getLsbD 0, str.granularity.getLsbD 0⟩ := by
  rw [decodeSegment_val, setParams_base, setParams_limit]
  rfl

/-! ## The table -/

/-- What `idt_init` leaves at vector `v`: the handler, the kind of gate and its level. -/
def Handlers.gate (h : Handlers) (v : ℕ) : Option (BitVec 32 × BitVec 5 × BitVec 2) :=
  if v = 0x80 then some (h.syscallHandler, trapGate, 3)
  else if v = 0x20 then some (h.schedulerWrapper, interruptGate, 0)
  else if v = 0x28 then some (h.rtcHandler, interruptGate, 0)
  else if v = 0x21 then some (h.keyboardWrapper, interruptGate, 0)
  else if v < 19 then some (h.exception v, trapGate, 0)
  else none

/-- A state of the table: the fields of `idt_set`, and what each entry decodes to. -/
structure Holds (s : IdtState) (r : BitVec 1) (l : BitVec 2) (gates : ℕ → Gate) : Prop where
  selector : s.idtSet.segSelector = 0x0010
  reserved0 : s.idtSet.reserved0 = 0
  size : s.idtSet.size = 1
  reserved1 : s.idtSet.reserved1 = 1
  reserved2 : s.idtSet.reserved2 = 1
  reserved3 : s.idtSet.reserved3 = r
  dpl : s.idtSet.dpl = l
  present : s.idtSet.present = 1
  gates : ∀ v, decodeGate (s.idt v) = gates v

/-- The gate that an entry with these fields decodes to. -/
def entryGate (handler : BitVec 32) (r : BitVec 1) (l : BitVec 2) : Gate :=
  ⟨handler, 0x0010, (0b0111 : BitVec 4) ++ r, l, true⟩

namespace Holds

variable {s : IdtState} {r : BitVec 1} {l : BitVec 2} {gates : ℕ → Gate}

theorem install (h : Holds s r l gates) (i : ℕ) (handler : BitVec 32) :
    Holds (s.install i handler) r l (Function.update gates i (entryGate handler r l)) := by
  refine ⟨h.selector, h.reserved0, h.size, h.reserved1, h.reserved2, h.reserved3, h.dpl, h.present,
    fun v => ?_⟩
  change decodeGate (Function.update s.idt i _ v) = _
  by_cases hv : v = i
  · rw [hv, Function.update_self, Function.update_self, decodeGate_val, setIdtEntry_offset]
    change (⟨handler, s.idtSet.segSelector, s.idtSet.reserved0 ++ s.idtSet.size ++
      s.idtSet.reserved1 ++ s.idtSet.reserved2 ++ s.idtSet.reserved3, s.idtSet.dpl,
      s.idtSet.present.getLsbD 0⟩ : Gate) = _
    rw [h.selector, h.reserved0, h.size, h.reserved1, h.reserved2, h.reserved3, h.dpl, h.present]
    rfl
  · rw [Function.update_of_ne hv, Function.update_of_ne hv, h.gates v]

theorem setReserved3 (h : Holds s r l gates) (r' : BitVec 1) :
    Holds (s.setReserved3 r') r' l gates :=
  ⟨h.selector, h.reserved0, h.size, h.reserved1, h.reserved2, rfl, h.dpl, h.present, h.gates⟩

theorem setDpl (h : Holds s r l gates) (l' : BitVec 2) : Holds (s.setDpl l') r l' gates :=
  ⟨h.selector, h.reserved0, h.size, h.reserved1, h.reserved2, h.reserved3, rfl, h.present, h.gates⟩

/-- The loop over the exceptions: after `i` of them the first `i` entries are set. -/
theorem exceptionEntries (h : Holds s r l gates) (hs : Handlers) :
    Holds ((exceptionEntries hs s).setReserved3 0) 0 l
      fun v => if v < 19 then entryGate (hs.exception v) 1 l else gates v := by
  suffices h' : ∃ r', Holds (Tables.exceptionEntries hs s) r' l
      fun v => if v < 19 then entryGate (hs.exception v) 1 l else gates v by
    obtain ⟨r', h'⟩ := h'
    exact h'.setReserved3 0
  refine forLoop_induct (fun i s => ∃ r', Holds s r' l
    fun v => if v < i then entryGate (hs.exception v) 1 l else gates v) _ ⟨r, ?_⟩ ?_
  · exact h
  · rintro i - s ⟨r', h⟩
    refine ⟨1, ?_⟩
    have hstep := (h.setReserved3 1).install i (hs.exception i)
    have heq : Function.update (fun v => if v < i then entryGate (hs.exception v) 1 l else gates v) i
        (entryGate (hs.exception i) 1 l) =
        fun v => if v < i + 1 then entryGate (hs.exception v) 1 l else gates v := by
      funext v
      by_cases hv : v = i
      · rw [hv, Function.update_self, if_pos (Nat.lt_succ_self i)]
      · have hiff : v < i ↔ v < i + 1 := by omega
        rw [Function.update_of_ne hv]
        simp only [hiff]
    exact heq ▸ hstep

end Holds

theorem decodeGate_idtInit (h : Handlers) (stack : IdtDesc) (idt : ℕ → BitVec 64) (v : ℕ) :
    decodeGate (idtInit h stack idt v) = (h.gate v).elim (decodeGate (idt v)) fun g =>
      ⟨g.1, 0x0010, g.2.1, g.2.2, true⟩ := by
  have hstart : Holds ⟨{ stack with
      segSelector := 0x0010, reserved0 := 0, reserved1 := 1, reserved2 := 1, reserved4 := 0
      present := 1, size := 1, dpl := 0 }, idt⟩ stack.reserved3 0 fun v => decodeGate (idt v) :=
    ⟨rfl, rfl, rfl, rfl, rfl, rfl, rfl, rfl, fun _ => rfl⟩
  have hend := (((((((hstart.exceptionEntries h).install 0x21 h.keyboardWrapper).install 0x28
    h.rtcHandler).install 0x20 h.schedulerWrapper).setReserved3 1).setDpl 3).install 0x80
    h.syscallHandler).gates v
  have htrap : (0b0111 : BitVec 4) ++ (1 : BitVec 1) = trapGate := by decide
  have hinterrupt : (0b0111 : BitVec 4) ++ (0 : BitVec 1) = interruptGate := by decide
  refine hend.trans ?_
  simp only [Function.update_apply, entryGate, htrap, hinterrupt, Handlers.gate]
  split_ifs <;> rfl

/-! ## Where interrupts go -/

/-- The code segment of the kernel: all of memory, level 0. -/
theorem decodeSegment_kernelCs (tss tssSize ldt ldtSize : BitVec 32) :
    decodeSegment (gdt tss tssSize ldt ldtSize 2) = ⟨0, 0xFFFFF, 0b11010, 0, true, true⟩ := by
  rw [gdt]
  decide

/-- What a gate of `idt_init` does with an interrupt that may use it. -/
def outcome (g : BitVec 32 × BitVec 5 × BitVec 2) : Outcome := .enter g.1 (g.2.1 = interruptGate)

theorem gate_kind {h : Handlers} {v : ℕ} {g : BitVec 32 × BitVec 5 × BitVec 2}
    (hg : h.gate v = some g) : (g.2.1 = interruptGate ∨ g.2.1 = trapGate) ∧
      g.2.2 = if v = 0x80 then 3 else 0 := by
  unfold Handlers.gate at hg
  split_ifs at hg with h₁ <;> cases hg
  · exact ⟨Or.inr rfl, (if_pos h₁).symm⟩
  · exact ⟨Or.inl rfl, (if_neg h₁).symm⟩
  · exact ⟨Or.inl rfl, (if_neg h₁).symm⟩
  · exact ⟨Or.inl rfl, (if_neg h₁).symm⟩
  · exact ⟨Or.inr rfl, (if_neg h₁).symm⟩

section

variable {h : Handlers} {stack : IdtDesc} {tss tssSize ldt ldtSize : BitVec 32} {v : ℕ}
  {cpl : BitVec 2} {software : Bool} {g : BitVec 32 × BitVec 5 × BitVec 2}

theorem interrupt_none (hg : h.gate v = none) :
    interrupt (idtInit h stack fun _ => 0) (gdt tss tssSize ldt ldtSize) cpl software v =
      .fault 13 := by
  have hentry := decodeGate_idtInit h stack (fun _ => 0) v
  rw [hg] at hentry
  rw [interrupt, hentry]
  rfl

theorem interrupt_some (hg : h.gate v = some g) (hdpl : software = true → cpl ≤ g.2.2) :
    interrupt (idtInit h stack fun _ => 0) (gdt tss tssSize ldt ldtSize) cpl software v =
      outcome g := by
  have hentry := decodeGate_idtInit h stack (fun _ => 0) v
  rw [hg] at hentry
  have henters : (⟨0, 0xFFFFF, 0b11010, 0, true, true⟩ : Segment).Enters cpl :=
    ⟨by decide, Nat.zero_le _⟩
  have hcs : decodeSegment (gdt tss tssSize ldt ldtSize ((0x0010 : BitVec 16).toNat / 8)) =
      ⟨0, 0xFFFFF, 0b11010, 0, true, true⟩ := decodeSegment_kernelCs tss tssSize ldt ldtSize
  rw [interrupt_enter hentry hcs (gate_kind hg).1 hdpl rfl henters rfl]
  have hbase : (0 : BitVec 32) + g.1 = g.1 := BitVec.zero_add g.1
  change Outcome.enter (0 + g.1) _ = outcome g
  rw [hbase]
  rfl

/-- A gate of level 0 stops an `int` instruction of user mode. -/
theorem interrupt_user (hg : h.gate v = some g) (hv : v ≠ 0x80) :
    interrupt (idtInit h stack fun _ => 0) (gdt tss tssSize ldt ldtSize) 3 true v = .fault 13 := by
  have hentry := decodeGate_idtInit h stack (fun _ => 0) v
  obtain ⟨hkind, hdpl⟩ := gate_kind hg
  rw [hg] at hentry
  rw [if_neg hv] at hdpl
  have hlow : g.2.2 < (3 : BitVec 2) := by
    rw [hdpl]
    decide
  unfold interrupt
  simp only [hentry, Option.elim_some]
  rw [if_neg fun hn => hkind.elim hn.1 hn.2, if_pos ⟨trivial, hlow⟩]

end

/-- The tables that `entry` loads, wherever the linker placed things. From user mode `int`
reaches the system calls alone and is a general protection fault otherwise; other
interrupts reach their handler from every level, and only the devices clear the interrupt
flag. The descriptors of the TSS and the LDT describe these. -/
theorem tables_protect (h : Handlers) (stack : IdtDesc) (tss tssSize ldt ldtSize : BitVec 32)
    (v : ℕ) (cpl : BitVec 2) :
    interrupt (idtInit h stack fun _ => 0) (gdt tss tssSize ldt ldtSize) 3 true v =
      (if v = 0x80 then .enter h.syscallHandler false else .fault 13) ∧
    interrupt (idtInit h stack fun _ => 0) (gdt tss tssSize ldt ldtSize) cpl false v =
      (h.gate v).elim (.fault 13) outcome ∧
    decodeSegment (gdt tss tssSize ldt ldtSize (0x0030 / 8)) =
      ⟨tss, tssSize.setWidth 20, 0b01001, 0, true, false⟩ ∧
    decodeSegment (gdt tss tssSize ldt ldtSize (0x0038 / 8)) =
      ⟨ldt, ldtSize.setWidth 20, 0b00010, 0, true, false⟩ := by
  have hsyscall : h.gate 0x80 = some (h.syscallHandler, trapGate, 3) := if_pos rfl
  refine ⟨?_, ?_, ?_, ?_⟩
  · by_cases hv : v = 0x80
    · rw [hv, if_pos rfl, interrupt_some hsyscall (fun _ => Nat.le_refl _), outcome]
      simp [trapGate, interruptGate]
    · rw [if_neg hv]
      cases hg : h.gate v with
      | none => exact interrupt_none hg
      | some g => exact interrupt_user hg hv
  · cases hg : h.gate v with
    | none => exact interrupt_none hg
    | some g => exact interrupt_some hg fun hf => absurd hf Bool.false_ne_true
  · change decodeSegment (tssDesc tss tssSize) = _
    rw [tssDesc, decodeSegment_setParams]
    simp
  · change decodeSegment (ldtDesc ldt ldtSize) = _
    rw [ldtDesc, decodeSegment_setParams]
    simp

end KudOS.Tables
