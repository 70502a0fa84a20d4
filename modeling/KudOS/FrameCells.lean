import KudOS.BlinkPictures
import KudOS.FishPrograms
import KudOS.ListPositions
import KudOS.TextLines

/-!
# The places of two frames

Two texts are laid out line by line, and behind the end of a line it is blank. The places
at which one of them is not blank come row by row, in the order of their locations if the
lines are short enough. Blinking characters at these places show one text and then the
other.
-/

namespace KudOS.User

open Blink (BlinkStruct)
open PaddedLists TextLines

/-- A place with its two characters. -/
structure Cell where
  row : ℕ
  col : ℕ
  on : UInt8
  off : UInt8

namespace Cell

/-- As far as something is to be seen. -/
def visible (row col : ℕ) (a b : UInt8) : List Cell :=
  if a = blankSpace ∧ b = blankSpace then [] else [⟨row, col, a, b⟩]

def ofRow (row col : ℕ) (l l' : List UInt8) : List Cell :=
  inStep blankSpace blankSpace (visible row) col l l'

def ofLines (row : ℕ) (ls ls' : List (List UInt8)) : List Cell :=
  inStep [] [] (fun row => ofRow row 0) row ls ls'

theorem ofRow_step (row col : ℕ) (l l' : List UInt8) :
    ofRow row col l l' = visible row col (l.headD blankSpace) (l'.headD blankSpace) ++
      ofRow row (col + 1) l.tail l'.tail := inStep_step (if_pos ⟨rfl, rfl⟩)

theorem ofLines_step (row : ℕ) (ls ls' : List (List UInt8)) :
    ofLines row ls ls' = ofRow row 0 (ls.headD []) (ls'.headD []) ++
      ofLines (row + 1) ls.tail ls'.tail := inStep_step rfl

/-- All places of two texts. -/
def ofTexts (f0 f1 : List UInt8) : List Cell :=
  ofLines 0 (f0.splitOn newlineChar) (f1.splitOn newlineChar)

def location (c : Cell) : ℕ := c.row * 80 + c.col + AddFrames.offset

/-- The structure with which the place blinks. -/
def struct (junk : BlinkStruct) (c : Cell) : BlinkStruct :=
  { junk with
    onChar := c.on, offChar := c.off, onLength := 15, offLength := 15
    location := UInt16.ofNat c.location }

end Cell

def charAt (f : List UInt8) (row col : ℕ) : UInt8 :=
  ((f.splitOn newlineChar).getD row []).getD col blankSpace

variable {c : Cell} {f f0 f1 : List UInt8} {row col : ℕ} {a b : UInt8}

/-- The text fits into the right half of the screen. -/
structure FrameFits (f : List UInt8) : Prop where
  rows : (f.splitOn newlineChar).length ≤ 25
  cols : ∀ l ∈ f.splitOn newlineChar, l.length ≤ 40

theorem FrameFits.lt (h : FrameFits f) (hne : charAt f row col ≠ blankSpace) :
    row < 25 ∧ col < 40 := by
  have hrow : row < (f.splitOn newlineChar).length := by
    by_contra hle
    rw [charAt, List.getD_eq_default _ _ (Nat.not_lt.mp hle)] at hne
    exact hne rfl
  rw [charAt, List.getD_eq_getElem _ _ hrow] at hne
  have hcol : col < ((f.splitOn newlineChar)[row]).length := by
    by_contra hle
    rw [List.getD_eq_default _ _ (Nat.not_lt.mp hle)] at hne
    exact hne rfl
  exact ⟨hrow.trans_le h.rows, hcol.trans_le (h.cols _ (List.getElem_mem hrow))⟩

variable {junk : BlinkStruct} {vmem : ℕ → UInt8} {n : ℕ}

end KudOS.User
