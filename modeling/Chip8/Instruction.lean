import Chip8.Opcode

/-!
# Instructions

An instruction is an operation with a twelve-bit operand. The operand is kept as its three nibbles;
the byte and the address that operations read from it are views. `Instruction.ofWord` reads a word:
a word that fits no operation's form is the instruction that does nothing, with a zero operand.
-/

set_option autoImplicit false

namespace Chip8

/-- The low twelve bits of an instruction word, as three nibbles. -/
structure Operand where
  /-- The nibble that names the first register. -/
  x : Nibble
  /-- The nibble that names the second register. -/
  y : Nibble
  /-- The last nibble: the height of a sprite. -/
  n : Nibble
  deriving DecidableEq, Repr

namespace Operand

/-- The operand of a word. -/
def ofWord (w : UInt16) : Operand := ⟨.ofNat (w.toNat / 256), .ofNat (w.toNat / 16), .ofNat w.toNat⟩

/-- The operand whose nibbles are all zero. -/
def zero : Operand := ⟨.ofNat 0, .ofNat 0, .ofNat 0⟩

/-- The low eight bits: an immediate byte. -/
def byte (o : Operand) : UInt8 := byteOfNibbles o.y o.n

/-- All twelve bits: an address. -/
def addr (o : Operand) : UInt16 := UInt16.ofNat (256 * o.x.val + 16 * o.y.val + o.n.val)

end Operand

/-- An operation and its operand. -/
structure Instruction where
  opcode : Opcode
  operand : Operand
  deriving DecidableEq, Repr

namespace Instruction

/-- The instruction that does nothing. -/
def noop : Instruction := ⟨.noop, .zero⟩

/-- The instruction that a word stands for. -/
def ofWord (w : UInt16) : Instruction :=
  let operand := Operand.ofWord w
  match Opcode.ofNibbles? (.ofNat (w.toNat / 4096)) operand.y operand.n with
  | some op => ⟨op, operand⟩
  | none => noop

end Instruction

end Chip8
