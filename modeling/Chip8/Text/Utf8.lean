/-!
# Reading UTF-8 leniently

`Utf8.decode` reads bytes as UTF-8. Bytes that are no text become U+FFFD, one for each maximal run
that begins a character and breaks off. The reader goes byte by byte: between characters, or with a
character begun of which some continuation bytes are missing.
-/

set_option autoImplicit false

namespace Chip8.Text.Utf8

/-- A character begun: the bits read so far, the range of the next byte, and how many bytes follow
that one. -/
structure Begun where
  bits : Nat
  low : Nat
  high : Nat
  after : Nat

/-- What a byte between characters is: a whole character, the beginning of one, or no text. -/
inductive Lead where
  | whole (c : Char)
  | begun (b : Begun)
  | stray

/-- The reading of a byte between characters. The ranges leave out overlong forms, surrogates and
numbers above U+10FFFF. -/
def lead (b : Nat) : Lead :=
  if b < 0x80 then .whole (Char.ofNat b)
  else if b < 0xC2 then .stray
  else if b < 0xE0 then .begun ⟨b - 0xC0, 0x80, 0xBF, 0⟩
  else if b < 0xF0 then
    .begun ⟨b - 0xE0, if b = 0xE0 then 0xA0 else 0x80, if b = 0xED then 0x9F else 0xBF, 1⟩
  else if b < 0xF5 then
    .begun ⟨b - 0xF0, if b = 0xF0 then 0x90 else 0x80, if b = 0xF4 then 0x8F else 0xBF, 2⟩
  else .stray

/-- The character that stands for bytes that are no text. -/
def replacement : Char := '\uFFFD'

/-- Reads bytes after what has been begun. -/
def decodeFrom : Option Begun → List UInt8 → List Char
  | none, [] => []
  | some _, [] => [replacement]
  | none, b :: bs =>
      match lead b.toNat with
      | .whole c => c :: decodeFrom none bs
      | .begun g => decodeFrom (some g) bs
      | .stray => replacement :: decodeFrom none bs
  | some g, b :: bs =>
      if g.low ≤ b.toNat ∧ b.toNat ≤ g.high then
        let bits := 64 * g.bits + (b.toNat - 0x80)
        match g.after with
        | 0 => Char.ofNat bits :: decodeFrom none bs
        | k + 1 => decodeFrom (some ⟨bits, 0x80, 0xBF, k⟩) bs
      else
        match lead b.toNat with
        | .whole c => replacement :: c :: decodeFrom none bs
        | .begun g => replacement :: decodeFrom (some g) bs
        | .stray => replacement :: replacement :: decodeFrom none bs

/-- The text of bytes. -/
def decode (bytes : List UInt8) : List Char := decodeFrom none bytes

/-- The bytes of a text. -/
def encode (text : String) : List UInt8 := text.toUTF8.data.toList

end Chip8.Text.Utf8
