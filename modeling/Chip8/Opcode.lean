import Chip8.Nibble

/-!
# Operation codes and their forms

The machine knows 35 operations, `noop` included. Each of the others has one form: the leading
nibble of its words, and possibly a value for the third and the fourth nibble. No word has two
forms, so a word names at most one operation.
-/

set_option autoImplicit false

namespace Chip8

/-- The operations of the machine, in the order of their indices. -/
inductive Opcode where
  /-- Does nothing. -/
  | noop
  /-- Darkens the whole screen. -/
  | clearScreen
  /-- Goes back to the caller. -/
  | ret
  /-- Goes to an address. -/
  | jump
  /-- Goes to an address and remembers the place of the call. -/
  | call
  /-- Skips an instruction if a register holds a byte. -/
  | skipIfByte
  /-- Skips an instruction unless a register holds a byte. -/
  | skipUnlessByte
  /-- Skips an instruction if two registers agree. -/
  | skipIfSame
  /-- Sets a register to a byte. -/
  | loadByte
  /-- Adds a byte to a register and leaves the flag alone. -/
  | addByte
  /-- Copies a register. -/
  | copy
  /-- Bitwise disjunction of two registers. -/
  | or
  /-- Bitwise conjunction of two registers. -/
  | and
  /-- Bitwise exclusive disjunction of two registers. -/
  | xor
  /-- Adds a register, with the carry in the flag. -/
  | add
  /-- Subtracts the second register from the first. -/
  | subtract
  /-- Shifts a register to the right by one bit. -/
  | shiftRight
  /-- Subtracts the first register from the second. -/
  | subtractFrom
  /-- Shifts a register to the left by one bit. -/
  | shiftLeft
  /-- Skips an instruction unless two registers agree. -/
  | skipUnlessSame
  /-- Sets the index register. -/
  | loadIndex
  /-- Goes to an address plus the register 0. -/
  | jumpOffset
  /-- Sets a register to a masked random byte. -/
  | random
  /-- Draws a sprite. -/
  | draw
  /-- Skips an instruction if a key is held. -/
  | skipIfHeld
  /-- Skips an instruction unless a key is held. -/
  | skipUnlessHeld
  /-- Reads the delay timer. -/
  | readDelay
  /-- Waits for a key. -/
  | awaitKey
  /-- Sets the delay timer. -/
  | writeDelay
  /-- Sets the sound timer. -/
  | writeSound
  /-- Adds a register to the index register. -/
  | advanceIndex
  /-- Points the index register at a glyph of the font. -/
  | loadGlyph
  /-- Stores the three decimal digits of a register. -/
  | storeDigits
  /-- Stores the registers up to a given one. -/
  | storeRegisters
  /-- Loads the registers up to a given one. -/
  | loadRegisters
  deriving DecidableEq, Repr, Inhabited

namespace Opcode

/-- Every operation, in the order of their indices. -/
def all : List Opcode :=
  [noop, clearScreen, ret, jump, call, skipIfByte, skipUnlessByte, skipIfSame, loadByte, addByte,
    copy, or, and, xor, add, subtract, shiftRight, subtractFrom, shiftLeft, skipUnlessSame,
    loadIndex, jumpOffset, random, draw, skipIfHeld, skipUnlessHeld, readDelay, awaitKey,
    writeDelay, writeSound, advanceIndex, loadGlyph, storeDigits, storeRegisters, loadRegisters]

/-- The index of an operation: its place in `all`. -/
def index (op : Opcode) : Nat := all.idxOf op

/-- The operation with a given index. -/
def ofIndex? (i : Nat) : Option Opcode := all[i]?

/-- The shape of an operation's words: the leading nibble, and the third and the fourth nibble where
the operation prescribes them. The second nibble is always free. -/
structure Form where
  lead : Nibble
  third : Option Nibble
  fourth : Option Nibble
  deriving DecidableEq, Repr

/-- Whether nibbles at the first, third and fourth place fit a form. -/
def Form.fits (f : Form) (lead third fourth : Nibble) : Bool :=
  f.lead == lead && f.third.all (· == third) && f.fourth.all (· == fourth)

/-- The form of an operation. The operation that does nothing has none: it stands for every word
that fits no form. -/
def form? : Opcode → Option Form
  | noop => none
  | clearScreen => some ⟨0x0, some 0xE, some 0x0⟩
  | ret => some ⟨0x0, some 0xE, some 0xE⟩
  | jump => some ⟨0x1, none, none⟩
  | call => some ⟨0x2, none, none⟩
  | skipIfByte => some ⟨0x3, none, none⟩
  | skipUnlessByte => some ⟨0x4, none, none⟩
  | skipIfSame => some ⟨0x5, none, some 0x0⟩
  | loadByte => some ⟨0x6, none, none⟩
  | addByte => some ⟨0x7, none, none⟩
  | copy => some ⟨0x8, none, some 0x0⟩
  | or => some ⟨0x8, none, some 0x1⟩
  | and => some ⟨0x8, none, some 0x2⟩
  | xor => some ⟨0x8, none, some 0x3⟩
  | add => some ⟨0x8, none, some 0x4⟩
  | subtract => some ⟨0x8, none, some 0x5⟩
  | shiftRight => some ⟨0x8, none, some 0x6⟩
  | subtractFrom => some ⟨0x8, none, some 0x7⟩
  | shiftLeft => some ⟨0x8, none, some 0xE⟩
  | skipUnlessSame => some ⟨0x9, none, some 0x0⟩
  | loadIndex => some ⟨0xA, none, none⟩
  | jumpOffset => some ⟨0xB, none, none⟩
  | random => some ⟨0xC, none, none⟩
  | draw => some ⟨0xD, none, none⟩
  | skipIfHeld => some ⟨0xE, some 0x9, some 0xE⟩
  | skipUnlessHeld => some ⟨0xE, some 0xA, some 0x1⟩
  | readDelay => some ⟨0xF, some 0x0, some 0x7⟩
  | awaitKey => some ⟨0xF, some 0x0, some 0xA⟩
  | writeDelay => some ⟨0xF, some 0x1, some 0x5⟩
  | writeSound => some ⟨0xF, some 0x1, some 0x8⟩
  | advanceIndex => some ⟨0xF, some 0x1, some 0xE⟩
  | loadGlyph => some ⟨0xF, some 0x2, some 0x9⟩
  | storeDigits => some ⟨0xF, some 0x3, some 0x3⟩
  | storeRegisters => some ⟨0xF, some 0x5, some 0x5⟩
  | loadRegisters => some ⟨0xF, some 0x6, some 0x5⟩

/-- The operation whose form the given nibbles fit. -/
def ofNibbles? (lead third fourth : Nibble) : Option Opcode :=
  all.find? fun op => op.form?.any fun f => f.fits lead third fourth

end Opcode

end Chip8
