/-!
# Nibbles and bytes

A nibble is a number below 16: the digit that names a register or a key slot. This module reads
nibbles from larger numbers, and joins nibbles to bytes and bytes to words.
-/

set_option autoImplicit false

namespace Chip8

/-- A four-bit number. -/
abbrev Nibble := Fin 16

-- The zero is the one that numerals of `Fin` ask for, whatever else is imported.
instance neZero_sixteen : @NeZero Nat Zero.ofOfNat0 16 := ⟨by decide⟩

namespace Nibble

/-- The low nibble of a number. -/
def ofNat (n : Nat) : Nibble := ⟨n % 16, Nat.mod_lt n (by decide)⟩

/-- The low nibble of a byte: a byte that names a register or a key slot is read this way. -/
def ofByte (b : UInt8) : Nibble := ofNat b.toNat

end Nibble

/-- The byte with the high nibble `h` and the low nibble `l`. -/
def byteOfNibbles (h l : Nibble) : UInt8 := UInt8.ofNat (16 * h.val + l.val)

theorem toNat_byteOfNibbles (h l : Nibble) : (byteOfNibbles h l).toNat = 16 * h.val + l.val := by
  rw [byteOfNibbles, UInt8.toNat_ofNat']
  omega

/-- The big-endian word with the high byte `h` and the low byte `l`. -/
def wordOfBytes (h l : UInt8) : UInt16 := UInt16.ofNat (256 * h.toNat + l.toNat)

theorem toNat_wordOfBytes (h l : UInt8) :
    (wordOfBytes h l).toNat = 256 * h.toNat + l.toNat := by
  have hh := h.toNat_lt
  have hl := l.toNat_lt
  rw [wordOfBytes, UInt16.toNat_ofNat']
  omega

end Chip8
