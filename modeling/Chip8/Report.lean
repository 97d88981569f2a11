import Chip8.Monitor
import Chip8.Picture

/-!
# Reports

What is shown of a machine after its run: the screen, the instructions around the program counter
with a mark at it, and the remaining registers. All of it is read through a monitor and printed line
by line. A fault of the monitor ends the printing; what was printed before it stays.
-/

set_option autoImplicit false

namespace Chip8

/-- Printing that a fault may end. The state is the text printed so far. -/
abbrev Printing := ExceptT Monitor.Fault (StateM String)

namespace Report

/-- Prints a text and a newline. -/
def printLine (line : String) : Printing Unit := modify (· ++ line ++ "\n")

/-- The instructions shown. -/
def rowCount : Nat := 9

/-- The instructions shown before the program counter. -/
def rowsBefore : Nat := 4

/-- The address of the first row: some instructions before the program counter, or zero. -/
def firstRow (pc : UInt16) : UInt16 := UInt16.ofNat (pc.toNat - 2 * rowsBefore)

/-- The line of a row. The row at the program counter is marked. -/
def rowLine (pc : UInt16) (row : ListingRow) : String :=
  (if row.address = pc then ">" else " ") ++ " " ++ Hexadecimal.numeral 3 row.address.toNat ++ ": "
    ++ Hexadecimal.numeral 4 row.word.toNat ++ "  " ++ row.mnemonic

/-- The line of the remaining registers. -/
def registerLine (i : UInt16) (sp delay sound : UInt8) : String :=
  "I=" ++ Hexadecimal.numeral 3 i.toNat ++ " SP=" ++ toString sp.toNat ++ " DT="
    ++ toString delay.toNat ++ " ST=" ++ toString sound.toNat

section

variable (d : Monitor) (pool : Pool)

/-- Prints the screen of the attached machine. -/
def printScreen : Printing Unit := do
  printLine (← d.read pool fun s => s.screen.picture)

/-- Prints the instructions around the program counter, and the remaining registers. -/
def printListing : Printing Unit := do
  let pc ← d.read pool fun s => s.pc
  let rows ← d.read pool fun s => s.listing (firstRow pc) rowCount
  rows.forM fun row => printLine (rowLine pc row)
  printLine (registerLine (← d.read pool fun s => s.i) (← d.read pool fun s => s.sp)
    (← d.read pool fun s => s.delay) (← d.read pool fun s => s.sound))

/-- Prints the whole report. -/
def print : Printing Unit := do
  printScreen d pool
  printListing d pool

end

end Report

end Chip8
