import Chip8.Memory
import Chip8.Instruction

/-!
# Machine states

All that an instruction may read or change: sixteen registers, the index register, the program
counter, the stack with its pointer, two timers, memory and screen.
-/

set_option autoImplicit false

namespace Chip8

/-- The cells of a screen row. -/
abbrev screenWidth : Nat := 64

/-- The rows of the screen. -/
abbrev screenHeight : Nat := 32

/-- The cells of the screen. -/
abbrev screenSize : Nat := screenWidth * screenHeight

/-- The screen, row by row. A cell is lit if it is not zero. -/
abbrev Screen := Cells UInt8 screenSize

namespace Screen

/-- A dark screen. -/
def dark : Screen := .replicate screenSize 0

/-- The cell in column `x` of row `y`. A column past the right edge goes on in the next row, and the
row after the last one is the first. -/
def cell (x y : Nat) : Fin screenSize :=
  ⟨(x + screenWidth * y) % screenSize, Nat.mod_lt _ (by decide)⟩

/-- The value of the cell in column `x` of row `y`. -/
def pixel (s : Screen) (x y : Nat) : UInt8 := s.get (cell x y)

end Screen

/-- The state that instructions work on. -/
structure State where
  /-- The general registers. The last one is the flag. -/
  v : Cells UInt8 16
  /-- The index register: the address that memory instructions start from. -/
  i : UInt16
  /-- The program counter. -/
  pc : UInt16
  /-- The stack pointer: the number of the slot used last, not reduced. -/
  sp : UInt8
  /-- The delay timer. -/
  delay : UInt8
  /-- The sound timer. -/
  sound : UInt8
  memory : Memory
  /-- Return addresses. -/
  stack : Cells UInt16 16
  screen : Screen
  deriving DecidableEq

namespace State

/-- The number of the flag register. -/
def flag : Nibble := .ofNat 15

/-- The state in which a program starts, with the given memory. -/
def ofMemory (memory : Memory) : State where
  v := .replicate 16 0
  i := 0
  pc := programStart
  sp := 0
  delay := 0
  sound := 0
  memory := memory
  stack := .replicate 16 0
  screen := Screen.dark

/-- The state of a machine without a program. -/
def initial : State := ofMemory Memory.blank

/-- The content of a register. -/
def reg (s : State) (r : Nibble) : UInt8 := s.v.get r

/-- Sets a register. -/
def setReg (s : State) (r : Nibble) (b : UInt8) : State := { s with v := s.v.set r b }

theorem reg_setReg (s : State) (r q : Nibble) (b : UInt8) :
    (s.setReg r b).reg q = if r = q then b else s.reg q := by
  simp only [reg, setReg, Cells.get_set]

/-- The stack slot that the stack pointer names. -/
def slot (s : State) : Nibble := .ofByte s.sp

/-- Moves the program counter past one instruction. -/
def advance (s : State) : State := { s with pc := s.pc + 2 }

/-- Sets the program counter so that the advance that ends every step lands on `target`. -/
def jumpTo (s : State) (target : UInt16) : State := { s with pc := target - 2 }

/-- Moves the program counter past one instruction if a condition holds. -/
def skipIf (s : State) (c : Bool) : State := if c then s.advance else s

/-- The word at an address. -/
def wordAt (s : State) (a : UInt16) : UInt16 := s.memory.word a

/-- The instruction at an address. -/
def instructionAt (s : State) (a : UInt16) : Instruction := .ofWord (s.wordAt a)

end State

end Chip8
