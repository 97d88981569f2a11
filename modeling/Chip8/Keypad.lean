import Chip8.Nibble
import Chip8.Cells

/-!
# Keypad

Sixteen keys in four rows of four. A slot is a key's place, row by row; a key's value is the
hexadecimal digit printed on it. The two numberings differ.
-/

set_option autoImplicit false

namespace Chip8

/-- Which slots are held down. -/
abbrev HeldKeys := Cells Bool 16

namespace Keypad

/-- The value of the key in each slot. -/
def layout : Cells UInt8 16 :=
  ⟨#v[0x1, 0x2, 0x3, 0xC,
    0x4, 0x5, 0x6, 0xD,
    0x7, 0x8, 0x9, 0xE,
    0xA, 0x0, 0xB, 0xF]⟩

/-- No key held. -/
def none : HeldKeys := .replicate 16 false

/-- The keys in the given slots held. -/
def ofSlots (slots : List Nat) : HeldKeys := .ofFn fun slot => slots.contains slot.val

/-- The held slots, in ascending order. -/
def heldSlots (keys : HeldKeys) : List Nibble := (List.finRange 16).filter keys.get

theorem mem_heldSlots {keys : HeldKeys} {slot : Nibble} :
    slot ∈ heldSlots keys ↔ keys.get slot = true := by
  simp [heldSlots]

theorem heldSlots_eq_nil_iff {keys : HeldKeys} :
    heldSlots keys = [] ↔ ∀ slot, keys.get slot = false := by
  simp [List.eq_nil_iff_forall_not_mem, mem_heldSlots]

/-- The values of the held keys, in the order of their slots. -/
def heldValues (keys : HeldKeys) : List UInt8 := (heldSlots keys).map layout.get

end Keypad

end Chip8
