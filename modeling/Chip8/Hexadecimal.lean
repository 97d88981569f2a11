import Chip8.Nibble

/-!
# Hexadecimal text

Upper-case hexadecimal numerals, with leading zeros up to a given width.
-/

set_option autoImplicit false

namespace Chip8.Hexadecimal

/-- The digit of a nibble. -/
def digit (d : Nibble) : Char :=
  if d.val < 10 then Char.ofNat ('0'.toNat + d.val) else Char.ofNat ('A'.toNat + (d.val - 10))

/-- The lowest `k` nibbles of a number, most significant first. -/
def lowNibbles : Nat → Nat → List Nibble
  | 0, _ => []
  | k + 1, n => lowNibbles k (n / 16) ++ [.ofNat n]

/-- The number of digits that a number needs; zero needs one. -/
def length (n : Nat) : Nat := n.log2 / 4 + 1

/-- The numeral of a number, with as many digits as it needs and at least `width`. -/
def numeral (width n : Nat) : String :=
  .ofList ((lowNibbles (max width (length n)) n).map digit)

end Chip8.Hexadecimal
