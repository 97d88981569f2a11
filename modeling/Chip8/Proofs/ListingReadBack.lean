import Chip8.Monitor
import Chip8.Proofs.Footprint

/-!
# A listing of what was written

Bytes that are written go to cells one after the other, and instructions are read from cells in
pairs. Both start over at the end of memory, the addresses also after the largest word. As long as
no cell is written twice, each byte is found where it was written (`Memory.read_writeBytes`). So
each row of a listing shows the two bytes that were written for it, also where the one is in the
last cell and the other in the first (`listing_reads_back`).
-/

set_option autoImplicit false

namespace Chip8

/-- No more bytes than there are cells are found where they were written. -/
theorem Memory.read_writeBytes (m : Memory) (a : UInt16) {bytes : List UInt8}
    (hfits : bytes.length ≤ 4096) {n : Nat} (hn : n < bytes.length) :
    (m.writeBytes a bytes).read (a + UInt16.ofNat n) = bytes[n] := by
  rw [writeBytes_eq_foldl, read]
  apply get_foldl_write_eq
  · intro p hp hcell
    obtain ⟨hk, hbyte⟩ := List.mem_zipIdx' hp
    have hsame : p.2 = n := (cell_add_inj a (by omega) (by omega)).1 hcell
    simpa only [hsame] using hbyte
  · exact .inr ⟨(bytes[n], n), List.mk_mem_zipIdx_iff_getElem?.2 (List.getElem?_eq_getElem hn), rfl⟩

namespace State

/-- The word at an even distance is that of the two bytes that were written for it. -/
theorem wordAt_edit_memory (s : State) (a : UInt16) {bytes : List UInt8}
    (hfits : bytes.length ≤ 4096) {n : Nat} (hn : 2 * n + 1 < bytes.length) :
    (s.edit (.memory a bytes)).wordAt (a + 2 * UInt16.ofNat n) =
      wordOfBytes bytes[2 * n] bytes[2 * n + 1] := by
  -- The word is read by the address of its first byte and the one after it.
  have hfirst : a + 2 * UInt16.ofNat n = a + UInt16.ofNat (2 * n) :=
    congrArg _ (UInt16.ofNat_mul 2 n).symm
  have hsecond : a + UInt16.ofNat (2 * n) + 1 = a + UInt16.ofNat (2 * n + 1) := by
    rw [UInt16.ofNat_add, UInt16.add_assoc]
    rfl
  rw [wordAt, edit, Memory.word, hfirst, hsecond, Memory.read_writeBytes _ _ hfits (by omega),
    Memory.read_writeBytes _ _ hfits hn]

end State

/-- What was written is listed. An even number of bytes, not more than there are cells, is written
from any address on into a machine that a monitor reaches. Then a listing of half as many rows from
that address on has a row for every two bytes: its address goes on after the largest word from zero,
its word is the big-endian word of the two bytes, its text is that of the word, and the word is also
what is found at its address. -/
theorem listing_reads_back {d : Monitor} {pool : Pool} {id : MachineId} {m : Machine}
    (haccess : d.access pool = .ok (id, m)) (address : UInt16) {bytes : List UInt8} {k : Nat}
    (hlength : bytes.length = 2 * k) (hfits : 2 * k ≤ 4096) :
    ∃ pool' rows, d.write pool (.memory address bytes) = .ok pool' ∧
      d.read pool' (fun s => s.listing address k) = .ok rows ∧ rows.length = k ∧
      ∀ n (hn : n < k), ∃ row, rows[n]? = some row ∧
        row.address.toNat = (address.toNat + 2 * n) % 65536 ∧
        row.word.toNat = 256 * bytes[2 * n].toNat + bytes[2 * n + 1].toNat ∧
        row.mnemonic = disassemble row.word ∧
        d.read pool' (fun s => s.wordAt row.address) = .ok row.word := by
  have hwritten := Monitor.access_setMachine haccess (m.edit (.memory address bytes))
  let s := (m.edit (.memory address bytes)).state
  refine ⟨_, s.listing address k, Monitor.write_of_access haccess _,
    Monitor.read_of_access hwritten _, by rw [State.listing, List.length_map, List.length_range],
    fun n hn => ?_⟩
  have hword := m.state.wordAt_edit_memory address (hlength.trans_le hfits) (n := n) (by omega)
  refine ⟨s.listingRow (address + 2 * UInt16.ofNat n), ?_, ?_, ?_, rfl,
    Monitor.read_of_access hwritten _⟩
  · rw [State.listing, List.getElem?_map, List.getElem?_range hn, Option.map_some]
  · show (address + 2 * UInt16.ofNat n).toNat = _
    have hdouble : 2 * UInt16.ofNat n = UInt16.ofNat (2 * n) := (UInt16.ofNat_mul 2 n).symm
    rw [hdouble, UInt16.toNat_add, UInt16.toNat_ofNat']
    omega
  · exact (congrArg UInt16.toNat hword).trans (toNat_wordOfBytes _ _)

/-- Two words are written from the largest address on, the first of them into the last cell and the
first one. Both are listed, the second one at the address 1. -/
theorem two_words_read_back :
    let m := Machine.new
    let pool := (Pool.empty.add m).2
    let d : Monitor := ⟨some 0⟩
    let bytes : List UInt8 := [0xD1, 0x25, 0xA2, 0xF0]
    d.access pool = .ok (0, m) ∧ bytes.length = 2 * 2 ∧ 2 * 2 ≤ 4096 ∧
      ∃ pool' rows, d.write pool (.memory 0xFFFF bytes) = .ok pool' ∧
        d.read pool' (fun s => s.listing 0xFFFF 2) = .ok rows ∧
        (∃ row, rows[0]? = some row ∧ row.address.toNat = 65535 ∧ row.word.toNat = 0xD125) ∧
        ∃ row, rows[1]? = some row ∧ row.address.toNat = 1 ∧ row.word.toNat = 0xA2F0 := by
  intro m pool d bytes
  have haccess : d.access pool = .ok (0, m) := rfl
  have hlength : bytes.length = 2 * 2 := rfl
  have hfits : 2 * 2 ≤ 4096 := by decide
  obtain ⟨pool', rows, hwrite, hread, -, hrows⟩ := listing_reads_back haccess 0xFFFF hlength hfits
  obtain ⟨first, hfirst, hfirstAddress, hfirstWord, -⟩ := hrows 0 (by decide)
  obtain ⟨second, hsecond, hsecondAddress, hsecondWord, -⟩ := hrows 1 (by decide)
  exact ⟨haccess, hlength, hfits, pool', rows, hwrite, hread,
    ⟨first, hfirst, hfirstAddress, hfirstWord⟩, second, hsecond, hsecondAddress, hsecondWord⟩

end Chip8
