import Chip8.State

/-!
# The screen as text

One line for each row of the screen, with a sign for each lit cell and a blank for each dark one.
Newlines stand between the rows and not after the last.
-/

set_option autoImplicit false

namespace Chip8.Screen

/-- The sign for the content of a cell. -/
def sign (b : UInt8) : Char := if b = 0 then ' ' else '@'

/-- The text of a row. -/
def rowText (s : Screen) (y : Nat) : List Char :=
  (List.range screenWidth).map fun x => sign (s.pixel x y)

/-- The text of every row. -/
def rowTexts (s : Screen) : List (List Char) := (List.range screenHeight).map s.rowText

/-- The text of the screen. -/
def picture (s : Screen) : String := .ofList (['\n'].intercalate s.rowTexts)

end Chip8.Screen
