import Chip8.Mnemonic
import Chip8.State

/-!
# Listings

Memory read as instructions, one every two bytes. The addresses of the rows wrap around after the
largest word; the cells they name wrap around at the end of memory.
-/

set_option autoImplicit false

namespace Chip8

/-- The text of an instruction word. -/
def disassemble (w : UInt16) : String := (Instruction.ofWord w).mnemonic

/-- One row of a listing. -/
structure ListingRow where
  address : UInt16
  word : UInt16
  mnemonic : String
  deriving DecidableEq

/-- The instruction that a row shows. -/
def ListingRow.instruction (row : ListingRow) : Instruction := .ofWord row.word

/-- The row for an address. -/
def State.listingRow (s : State) (address : UInt16) : ListingRow :=
  ⟨address, s.wordAt address, disassemble (s.wordAt address)⟩

/-- The rows of `count` instructions from an address on. -/
def State.listing (s : State) (start : UInt16) (count : Nat) : List ListingRow :=
  (List.range count).map fun k => s.listingRow (start + 2 * UInt16.ofNat k)

namespace State

/-- The first row, and the others from the next instruction on. -/
theorem listing_succ (s : State) (start : UInt16) (count : Nat) :
    s.listing start (count + 1) = s.listingRow start :: s.listing (start + 2) count := by
  have haddress : ∀ k, start + 2 * UInt16.ofNat (k + 1) = start + 2 + 2 * UInt16.ofNat k := by
    intro k
    rw [UInt16.ofNat_add, UInt16.mul_add, UInt16.add_comm _ (2 * UInt16.ofNat 1),
      ← UInt16.add_assoc]
    rfl
  have hfirst : start + 2 * UInt16.ofNat 0 = start := by
    simp
  rw [listing, List.range_succ_eq_map, List.map_cons, List.map_map, hfirst, listing]
  congr 1
  exact List.map_congr_left fun k _ => congrArg s.listingRow (haddress k)

/-- A listing shows memory and nothing else. -/
theorem listing_congr {s t : State} (h : s.memory = t.memory) (start : UInt16) (count : Nat) :
    s.listing start count = t.listing start count := by
  simp only [listing, listingRow, wordAt, h]

end State

end Chip8
