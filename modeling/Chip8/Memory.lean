import Chip8.Nibble
import Chip8.Cells

/-!
# Memory

The machine has 4096 bytes of memory. An address is a full word and is never out of range: the cell
it names is the address modulo 4096. A fresh memory holds the font at its start and zeros elsewhere;
programs begin at `programStart` and reach at most to the end (`Memory.toList_ofProgram`).
-/

set_option autoImplicit false

namespace Chip8

namespace Font

/-- The bytes of one glyph. -/
def glyphSize : Nat := 5

/-- The glyphs of the sixteen hexadecimal digits, five rows each. -/
def bytes : List UInt8 :=
  [0xF0, 0x90, 0x90, 0x90, 0xF0,
    0x20, 0x60, 0x20, 0x20, 0x70,
    0xF0, 0x10, 0xF0, 0x80, 0xF0,
    0xF0, 0x10, 0xF0, 0x10, 0xF0,
    0x90, 0x90, 0xF0, 0x10, 0x10,
    0xF0, 0x80, 0xF0, 0x10, 0xF0,
    0xF0, 0x80, 0xF0, 0x90, 0xF0,
    0xF0, 0x10, 0x20, 0x40, 0x40,
    0xF0, 0x90, 0xF0, 0x90, 0xF0,
    0xF0, 0x90, 0xF0, 0x10, 0xF0,
    0xF0, 0x90, 0xF0, 0x90, 0x90,
    0xE0, 0x90, 0xE0, 0x90, 0xE0,
    0xF0, 0x80, 0x80, 0x80, 0xF0,
    0xE0, 0x90, 0x90, 0x90, 0xE0,
    0xF0, 0x80, 0xF0, 0x80, 0xF0,
    0xF0, 0x80, 0xF0, 0x80, 0x80]

/-- The address of the glyph of a digit. The digit may be any byte: beyond the sixteenth glyph the
address points past the font. -/
def glyph (digit : UInt8) : UInt16 := UInt16.ofNat (glyphSize * digit.toNat)

end Font

/-- The number of memory cells. -/
abbrev memorySize : Nat := 4096

/-- The address at which programs begin. -/
def programStart : UInt16 := 0x200

/-- The memory of a machine. -/
abbrev Memory := Cells UInt8 memorySize

namespace Memory

/-- The cell that an address names. -/
def cell (a : UInt16) : Fin memorySize := ⟨a.toNat % memorySize, Nat.mod_lt _ (by decide)⟩

/-- The byte at an address. -/
def read (m : Memory) (a : UInt16) : UInt8 := m.get (cell a)

/-- Puts a byte at an address. -/
def write (m : Memory) (a : UInt16) (b : UInt8) : Memory := m.set (cell a) b

theorem read_write (m : Memory) (a c : UInt16) (b : UInt8) :
    (m.write a b).read c = if cell a = cell c then b else m.read c := by
  simp only [read, write, Cells.get_set]

/-- Words wrap around at a multiple of the memory size. -/
theorem val_cell_add (a : UInt16) (k : Nat) :
    (cell (a + UInt16.ofNat k)).val = (a.toNat + k) % 4096 := by
  show (a + UInt16.ofNat k).toNat % 4096 = _
  rw [UInt16.toNat_add, UInt16.toNat_ofNat']
  omega

/-- Addresses in a row name different cells, as long as they are not more than the cells. -/
theorem cell_add_inj (a : UInt16) {j k : Nat} (hj : j < 4096) (hk : k < 4096) :
    cell (a + UInt16.ofNat j) = cell (a + UInt16.ofNat k) ↔ j = k := by
  rw [Fin.ext_iff, val_cell_add, val_cell_add]
  omega

/-- The big-endian word at an address. -/
def word (m : Memory) (a : UInt16) : UInt16 := wordOfBytes (m.read a) (m.read (a + 1))

/-- The `n` bytes from an address on. -/
def readBytes (m : Memory) (a : UInt16) (n : Nat) : List UInt8 :=
  (List.range n).map fun k => m.read (a + UInt16.ofNat k)

/-- Puts bytes at an address and the addresses after it, one after the other. -/
def writeBytes (m : Memory) (a : UInt16) : List UInt8 → Memory
  | [] => m
  | b :: bs => (m.write a b).writeBytes (a + 1) bs

/-- Each byte is written as far from the first address as it stands in the list. -/
theorem writeBytes_eq_foldl (m : Memory) (a : UInt16) (bytes : List UInt8) :
    m.writeBytes a bytes =
      bytes.zipIdx.foldl (fun m p => m.write (a + UInt16.ofNat p.2) p.1) m := by
  have hfrom : ∀ (m : Memory) (k : Nat), m.writeBytes (a + UInt16.ofNat k) bytes =
      (bytes.zipIdx k).foldl (fun m p => m.write (a + UInt16.ofNat p.2) p.1) m := by
    induction bytes with
    | nil => exact fun _ _ => rfl
    | cons b bytes ih =>
      intro m k
      have hnext : a + UInt16.ofNat k + 1 = a + UInt16.ofNat (k + 1) := by
        rw [UInt16.ofNat_add, UInt16.add_assoc]
        rfl
      rw [writeBytes, hnext, ih, List.zipIdx_cons, List.foldl_cons]
  have hstart : a + UInt16.ofNat 0 = a := UInt16.add_zero a
  rw [← hfrom m 0, hstart]

theorem length_toList (m : Memory) : m.toList.length = 4096 := Vector.length_toList

theorem toList_write (m : Memory) (a : UInt16) (b : UInt8) :
    (m.write a b).toList = m.toList.set (a.toNat % 4096) b :=
  Vector.toList_set (cell a).isLt

/-- Bytes that end within the memory replace as many bytes, and the others stay. -/
theorem toList_writeBytes (m : Memory) (a : UInt16) (bytes : List UInt8)
    (hend : a.toNat + bytes.length ≤ 4096) :
    (m.writeBytes a bytes).toList =
      m.toList.take a.toNat ++ bytes ++ m.toList.drop (a.toNat + bytes.length) := by
  induction bytes generalizing m a with
  | nil => rw [writeBytes, List.append_nil, List.length_nil, Nat.add_zero, List.take_append_drop]
  | cons b bytes ih =>
    rw [List.length_cons] at hend
    have hcell : a.toNat % 4096 = a.toNat := Nat.mod_eq_of_lt (by omega)
    have hnext : (a + 1).toNat = a.toNat + 1 := by
      rw [UInt16.toNat_add, UInt16.toNat_one]
      omega
    have hlt : a.toNat < (m.toList.set a.toNat b).length := by
      rw [List.length_set, length_toList]
      omega
    -- The first byte stands where the part before the others now ends.
    have htake : (m.toList.set a.toNat b).take (a.toNat + 1) = m.toList.take a.toNat ++ [b] := by
      rw [List.take_succ_eq_append_getElem hlt, List.take_set_of_le (Nat.le_refl _),
        List.getElem_set_self]
    have hdrop : (m.toList.set a.toNat b).drop (a.toNat + 1 + bytes.length) =
        m.toList.drop (a.toNat + (bytes.length + 1)) := by
      rw [List.drop_set_of_lt (by omega), Nat.add_assoc, Nat.add_comm 1]
    have hrest := ih (m.write a b) (a + 1) (by omega)
    rw [toList_write, hcell, hnext, htake, hdrop] at hrest
    rw [writeBytes, hrest, List.length_cons, List.append_assoc _ [b], List.singleton_append]

/-- A memory with nothing but the font. -/
def blank : Memory := writeBytes (.replicate memorySize 0) 0 Font.bytes

theorem toList_blank : blank.toList = Font.bytes ++ List.replicate 4016 0 := by
  rw [blank, toList_writeBytes _ 0 Font.bytes (by decide)]
  show List.take 0 (Vector.replicate 4096 0).toList ++ Font.bytes ++
    List.drop (0 + 80) (Vector.replicate 4096 0).toList = _
  rw [Vector.toList_replicate, List.drop_replicate]
  rfl

/-- A memory with the font and a program. -/
def ofProgram (program : List UInt8) : Memory := blank.writeBytes programStart program

/-- The whole memory under a program. -/
theorem toList_ofProgram {program : List UInt8} (hle : program.length ≤ 3584) :
    (ofProgram program).toList =
      Font.bytes ++ List.replicate 432 0 ++ program ++
        List.replicate (3584 - program.length) 0 := by
  have hend : programStart.toNat + program.length ≤ 4096 := by
    show 512 + program.length ≤ 4096
    omega
  have hstart : programStart.toNat = Font.bytes.length + 432 := rfl
  have hrest : 4016 - (432 + program.length) = 3584 - program.length := by omega
  rw [ofProgram, toList_writeBytes _ _ _ hend, toList_blank, hstart, List.take_length_add_append,
    List.take_replicate, Nat.add_assoc, List.drop_length_add_append, List.drop_replicate, hrest]
  rfl

end Memory

end Chip8
