import KudOS.BlinkingCharacters
import KudOS.UserPrograms

/-!
# The frames of fish

`add_frames` of `fish.c` reads two files in step, line by line and character by character,
and adds a blinking character for each place at which one of them is not blank. The calls
of `mp1_ioctl` are logged; their results are not looked at.
-/

namespace KudOS.User

open Blink (BlinkStruct)
open Sessions

/-- The variables of `add_frames`, and the structures handed to `mp1_ioctl` so far. -/
structure Frames where
  fd0 : ℤ
  fd1 : ℤ
  c0 : UInt8
  c1 : UInt8
  eof0 : Bool
  eof1 : Bool
  row : ℕ
  col : ℕ
  added : List BlinkStruct

/-- `add_frames` as a program that ends when it returns. -/
inductive AddFrames where
  | open0
  | open1 (fd0 : ℤ)
  | read0 (v : Frames)
  | read1 (v : Frames)
  | close0 (v : Frames)
  | close1 (v : Frames)
  | halted
  | returned (added : List BlinkStruct)

namespace AddFrames

def offset : ℕ := 40

/-- `blink_struct`, in which `junk` stands for what was on the stack. -/
def blinkStruct (junk : BlinkStruct) (v : Frames) : BlinkStruct :=
  { junk with
    onChar := if v.c0 = newlineChar then blankSpace else v.c0
    offChar := if v.c1 = newlineChar then blankSpace else v.c1
    onLength := 15
    offLength := 15
    location := UInt16.ofNat (v.row * 80 + v.col + offset) }

/-- The first test of the inner loop. One of the two lines has not ended. -/
def proceed (v : Frames) : AddFrames :=
  if v.c0 ≠ newlineChar then .read0 v else .read1 v

def nextRow (v : Frames) : AddFrames :=
  if v.eof0 = true ∧ v.eof1 = true then .returned v.added
  else proceed { v with row := v.row + 1, col := 0 }

def endRow1 (v : Frames) : AddFrames :=
  if v.eof1 = true then .close1 v else nextRow { v with c1 := 0x30 }

def endRow0 (v : Frames) : AddFrames :=
  if v.eof0 = true then .close0 v else endRow1 { v with c0 := 0x30 }

/-- Behind the second read. -/
def examine (junk : BlinkStruct) (v : Frames) : AddFrames :=
  if v.c0 = newlineChar ∧ v.c1 = newlineChar then endRow0 v
  else if (v.c0 ≠ blankSpace ∧ v.c0 ≠ newlineChar) ∨ (v.c1 ≠ blankSpace ∧ v.c1 ≠ newlineChar) then
    proceed { v with added := v.added ++ [blinkStruct junk v], col := v.col + 1 }
  else proceed { v with col := v.col + 1 }

/-- Between the two reads. -/
def second (junk : BlinkStruct) (v : Frames) : AddFrames :=
  if v.c1 ≠ newlineChar then .read1 v else examine junk v

def act (f0 f1 : ℕ → UInt8) (junk : BlinkStruct) : AddFrames → Act AddFrames Call Reply
  | .open0 => .call (.open f0) fun r => if r.value < 0 then .halted else .open1 r.value
  | .open1 fd0 => .call (.open f1) fun r =>
    if r.value < 0 then .halted else proceed ⟨fd0, r.value, 0x30, 0x30, false, false, 0, 0, []⟩
  | .read0 v => .call (.read v.fd0 (fun _ => v.c0) 1) fun r =>
    second junk (if r.value = 0 then { v with c0 := newlineChar, eof0 := true }
      else { v with c0 := r.buf 0 })
  | .read1 v => .call (.read v.fd1 (fun _ => v.c1) 1) fun r =>
    examine junk (if r.value = 0 then { v with c1 := newlineChar, eof1 := true }
      else { v with c1 := r.buf 0 })
  | .close0 v => .call (.close v.fd0) fun _ => endRow1 { v with c0 := newlineChar }
  | .close1 v => .call (.close v.fd1) fun _ => nextRow { v with c1 := newlineChar }
  | .halted => .exit 255
  | .returned _ => .exit 0

end AddFrames
end KudOS.User
