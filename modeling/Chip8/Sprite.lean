import Chip8.State

/-!
# Sprites

A sprite is a list of bytes, one for each row of eight dots. Drawing turns over the screen cell
under each set dot, in reading order, and records in the flag whether a lit cell was turned off.

The position is read from the registers again for each dot. So if one of the two coordinates is
the flag register, it is 0 up to the first collision and 1 after it.
-/

set_option autoImplicit false

namespace Chip8

namespace Sprite

/-- The set dots of one row, from the left: bit 7 is column 0. -/
def rowDots (row : UInt8) : List Nat :=
  (List.range 8).filter fun column => row.toNat.testBit (7 - column)

/-- The set dots of a sprite as columns and rows, in reading order. -/
def dots (rows : List UInt8) : List (Nat × Nat) :=
  rows.zipIdx.flatMap fun (row, y) => (rowDots row).map fun x => (x, y)

end Sprite

namespace State

/-- The screen cell under the dot in column `dot.1` and row `dot.2` of a sprite whose position is in
the registers `x` and `y`. -/
def dotCell (s : State) (x y : Nibble) (dot : Nat × Nat) : Fin screenSize :=
  Screen.cell ((s.reg x).toNat + dot.1) ((s.reg y).toNat + dot.2)

/-- Turns over the cell under one dot; the flag becomes 1 if the cell's low bit was set. -/
def plot (x y : Nibble) (s : State) (dot : Nat × Nat) : State :=
  let c := s.dotCell x y dot
  let old := s.screen.get c
  { s.setReg flag (s.reg flag ||| (old &&& 1)) with screen := s.screen.set c (~~~ old) }

/-- Draws a sprite at the position that the registers `x` and `y` hold. -/
def drawSprite (s : State) (x y : Nibble) (rows : List UInt8) : State :=
  (Sprite.dots rows).foldl (plot x y) (s.setReg flag 0)

end State

end Chip8
