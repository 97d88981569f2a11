import Chip8.Instruction
import Chip8.Hexadecimal

/-!
# Mnemonics

The text of an instruction. Registers, addresses and random masks are hexadecimal; the other bytes
and the height of a sprite are decimal. A form shows the operand fields that the operation reads,
and no others.
-/

set_option autoImplicit false

namespace Chip8

namespace Operand

/-- The name of the first register. -/
def firstName (o : Operand) : String := "V" ++ Hexadecimal.numeral 1 o.x.val

/-- The name of the second register. -/
def secondName (o : Operand) : String := "V" ++ Hexadecimal.numeral 1 o.y.val

/-- Both register names. -/
def bothNames (o : Operand) : String := o.firstName ++ ", " ++ o.secondName

/-- The first register's name and the decimal byte. -/
def nameAndByte (o : Operand) : String := o.firstName ++ ", " ++ toString o.byte.toNat

/-- The address as three digits. -/
def addrText (o : Operand) : String := Hexadecimal.numeral 3 o.addr.toNat

end Operand

/-- The text of an instruction. -/
def Instruction.mnemonic (i : Instruction) : String :=
  let o := i.operand
  match i.opcode with
  | .noop => "NOP/SYS"
  | .clearScreen => "CLS"
  | .ret => "RET"
  | .jump => "JP " ++ o.addrText
  | .call => "CALL " ++ o.addrText
  | .skipIfByte => "SE " ++ o.nameAndByte
  | .skipUnlessByte => "SNE " ++ o.nameAndByte
  | .skipIfSame => "SE " ++ o.bothNames
  | .loadByte => "LD " ++ o.nameAndByte
  | .addByte => "ADD " ++ o.nameAndByte
  | .copy => "LD " ++ o.bothNames
  | .or => "OR " ++ o.bothNames
  | .and => "AND " ++ o.bothNames
  | .xor => "XOR " ++ o.bothNames
  | .add => "ADD " ++ o.bothNames
  | .subtract => "SUB " ++ o.bothNames
  | .shiftRight => "SHR " ++ o.firstName
  | .subtractFrom => "SUBN " ++ o.bothNames
  | .shiftLeft => "SHL " ++ o.firstName
  | .skipUnlessSame => "SNE " ++ o.bothNames
  | .loadIndex => "LD I, " ++ o.addrText
  | .jumpOffset => "JP V0, " ++ o.addrText
  | .random => "RND " ++ o.firstName ++ ", " ++ Hexadecimal.numeral 2 o.byte.toNat
  | .draw => "DRW " ++ o.bothNames ++ ", " ++ toString o.n.val
  | .skipIfHeld => "SKP " ++ o.firstName
  | .skipUnlessHeld => "SKNP " ++ o.firstName
  | .readDelay => "LD " ++ o.firstName ++ ", DT"
  | .awaitKey => "LD " ++ o.firstName ++ ", Key"
  | .writeDelay => "LD DT, " ++ o.firstName
  | .writeSound => "LD ST, " ++ o.firstName
  | .advanceIndex => "ADD I, " ++ o.firstName
  | .loadGlyph => "LD F, " ++ o.firstName
  | .storeDigits => "LD B, " ++ o.firstName
  | .storeRegisters => "LD [I], " ++ o.firstName
  | .loadRegisters => "LD " ++ o.firstName ++ ", [I]"

end Chip8
