import Mathlib.Data.Int.Notation
import Mathlib.Data.Nat.Notation
import Mathlib.Logic.Function.Basic

/-!
# Blinking characters

The device of `blink.S` and its allocator in `fish.c`: a list of structures in
`blink_array`, whose characters the tasklet switches on and off. A pointer to a structure is
its index, and the null pointer is `none`.
-/

namespace KudOS.Blink

structure BlinkStruct where
  location : UInt16
  onChar : UInt8
  offChar : UInt8
  onLength : UInt16
  offLength : UInt16
  countdown : UInt16
  status : UInt16
  next : Option ℕ
  deriving DecidableEq

def BlinkStruct.zero : BlinkStruct := ⟨0, 0, 0, 0, 0, 0, 0, none⟩

def NUM_SLOTS : ℕ := 80 * 25

/-- `vmem` holds the bytes from `vmem_base_addr` on. -/
structure State where
  blinkArray : ℕ → BlinkStruct
  mp1ListHead : Option ℕ
  vmem : ℕ → UInt8

def init (vmem : ℕ → UInt8) : State := ⟨fun _ => .zero, none, vmem⟩

namespace State

def setSlot (s : State) (i : ℕ) (b : BlinkStruct) : State :=
  { s with blinkArray := Function.update s.blinkArray i b }

def mp1Poke (s : State) (cl : UInt8) (eax : ℕ) : State :=
  { s with vmem := Function.update s.vmem eax cl }

end State

/-! ## fish.c -/

/-- `for (i = 0; i < 80*25; i++) if (blink_array[i].location == 0) return &blink_array[i]`. -/
def mallocLoop (a : ℕ → BlinkStruct) : ℕ → ℕ → Option ℕ
  | 0, _ => none
  | n + 1, i => if (a i).location = 0 then some i else mallocLoop a n (i + 1)

def mp1Malloc (s : State) : Option ℕ := mallocLoop s.blinkArray NUM_SLOTS 0

def mp1Free (s : State) (memory : ℕ) : State := s.setSlot memory .zero

/-! ## blink.S -/

/-- The loop of `mp1_find_helper`. Whoever follows more pointers than there are structures
meets one of them again, and goes on forever. -/
def findLoop (a : ℕ → BlinkStruct) (ax : UInt16) : ℕ → Option ℕ → Option (Option ℕ)
  | 0, _ => none
  | _ + 1, none => some none
  | n + 1, some ebx =>
    if (a ebx).location = ax then some (some ebx) else findLoop a ax n (a ebx).next

def mp1FindHelper (s : State) (ax : UInt16) : Option (Option ℕ) :=
  findLoop s.blinkArray ax (NUM_SLOTS + 1) s.mp1ListHead

structure Flags where
  sf : Bool
  of : Bool

/-- `testb`: the sign of the conjunction, and no overflow. -/
def testb (x y : UInt8) : Flags := ⟨decide (128 ≤ x &&& y), false⟩

/-- `cmovl`: the move is made if the flags say "less". -/
def cmovl (f : Flags) (src dst : UInt8) : UInt8 := if f.sf ≠ f.of then src else dst

def taskletBody (s : State) (ebx : ℕ) : State :=
  let b := s.blinkArray ebx
  let b := { b with countdown := b.countdown - 1 }
  if 0 < b.countdown.toInt16 then s.setSlot ebx b
  else
    let eax := 2 * b.location.toNat
    if b.status &&& 1 = 0 then
      (s.mp1Poke b.onChar eax).setSlot ebx
        { b with countdown := b.onLength, status := b.status ^^^ 1 }
    else
      (s.mp1Poke b.offChar eax).setSlot ebx
        { b with countdown := b.offLength, status := b.status ^^^ 1 }

def taskletLoop : ℕ → State → Option ℕ → Option State
  | 0, _, _ => none
  | _ + 1, s, none => some s
  | n + 1, s, some ebx =>
    let s := taskletBody s ebx
    taskletLoop n s (s.blinkArray ebx).next

def mp1RtcTasklet (s : State) : Option State := taskletLoop (NUM_SLOTS + 1) s s.mp1ListHead

/-- `mp1_ioctl_add` with a copy of the structure of the caller. `ece391_memcpy` never fails. -/
def mp1IoctlAdd (s : State) (arg : BlinkStruct) : State × ℤ :=
  if 80 * 25 ≤ arg.location then (s, -1)
  else
    let temp := { arg with status := 1, countdown := arg.onLength }
    match mp1Malloc s with
    | none => (s, -1)
    | some edx =>
      let s := { s.setSlot edx { temp with next := s.mp1ListHead } with mp1ListHead := some edx }
      (s.mp1Poke temp.onChar (2 * temp.location.toNat), 0)

/-- A place in memory that holds a pointer to a structure. -/
inductive Place where
  | listHead
  | next (i : ℕ)

def State.pointer (s : State) : Place → Option ℕ
  | .listHead => s.mp1ListHead
  | .next i => (s.blinkArray i).next

def State.setPointer (s : State) (edx : Place) (ecx : Option ℕ) : State :=
  match edx with
  | .listHead => { s with mp1ListHead := ecx }
  | .next i => s.setSlot i { s.blinkArray i with next := ecx }

/-- `remove_find_prev`. There is no structure behind a null pointer. -/
def findPrevLoop (s : State) (eax : ℕ) : ℕ → Place → Option Place
  | 0, _ => none
  | n + 1, edx =>
    if s.pointer edx = some eax then some edx
    else
      match s.pointer edx with
      | none => none
      | some i => findPrevLoop s eax n (.next i)

def mp1IoctlRemove (s : State) (arg : UInt32) : Option (State × ℤ) := do
  match ← mp1FindHelper s arg.toUInt16 with
  | none => some (s, -1)
  | some eax =>
    let edx ← findPrevLoop s eax (NUM_SLOTS + 1) .listHead
    some (mp1Free (s.setPointer edx (s.blinkArray eax).next) eax, 0)

/-- The structure `edi` after `sync_copy_loop`. -/
def syncCopy (esi edi : BlinkStruct) : BlinkStruct :=
  { edi with onLength := esi.onLength, offLength := esi.offLength, countdown := esi.countdown,
             status := esi.status }

def mp1IoctlSync (s : State) (arg : UInt32) : Option (State × ℤ) := do
  match ← mp1FindHelper s (arg >>> 16).toUInt16 with
  | none => some (s, -1)
  | some esi =>
    match ← mp1FindHelper s (arg &&& 0xFFFF).toUInt16 with
    | none => some (s, -1)
    | some edi =>
      let b := syncCopy (s.blinkArray esi) (s.blinkArray edi)
      let ecx := cmovl (testb 1 b.status.toUInt8) b.onChar b.offChar
      some ((s.setSlot edi b).mp1Poke ecx (2 * b.location.toNat), 0)

/-- `mp1_ioctl_find`: the structure that the caller gets, and the result. -/
def mp1IoctlFind (s : State) (location : UInt16) : Option (Option BlinkStruct × ℤ) := do
  match ← mp1FindHelper s location with
  | none => some (none, -1)
  | some eax => some (some (s.blinkArray eax), 0)

/-! ## Runs -/

/-- The calls of `mp1_ioctl`, with what their argument is or points to, and the tasklet. -/
inductive Call where
  | add (arg : BlinkStruct)
  | remove (arg : UInt32)
  | find (location : UInt16)
  | sync (arg : UInt32)
  | tick

/-- One call: the next state and the result. The tasklet has none. -/
def exec (s : State) : Call → Option (State × ℤ)
  | .add arg => some (mp1IoctlAdd s arg)
  | .remove arg => mp1IoctlRemove s arg
  | .find location => do
    let (_, r) ← mp1IoctlFind s location
    some (s, r)
  | .sync arg => mp1IoctlSync s arg
  | .tick => do
    let s ← mp1RtcTasklet s
    some (s, 0)

/-- The state after the calls `cs`, if all of them return. -/
def after (vmem : ℕ → UInt8) (cs : List Call) : Option State :=
  cs.foldlM (fun s c => (exec s c).map Prod.fst) (init vmem)

theorem after_nil (vmem : ℕ → UInt8) : after vmem [] = some (init vmem) := rfl

theorem after_concat (vmem : ℕ → UInt8) (cs : List Call) (c : Call) :
    after vmem (cs ++ [c]) = (after vmem cs).bind fun s => (exec s c).map Prod.fst := by
  rw [after, List.foldlM_append]
  refine congrArg _ (funext fun s => ?_)
  change ((exec s c).map Prod.fst).bind pure = _
  exact Option.bind_fun_some _

end KudOS.Blink
