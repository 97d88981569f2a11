import Chip8.State
import Mathlib.Algebra.Group.Nat.Defs

/-!
# Guarded steps

In a guarded step nothing is in range by its type. Cells are named by plain numbers, which are
compared with the size of the bank at each access. Sums and products are compared with the bits
provided for them, differences with zero, the places of a shift with the bits of a byte, and the
room in a buffer is looked at before it is used. The first guard that is broken ends the step
(`Violation`).

Registers, memory cells and stack slots are found by masks and remainders of the numbers that an
instruction or the machine happens to hold, and the fields of an operand by shifts and masks of its
bits. Loops count in numbers of a fixed width, and a loop is a fold as long as its bounds fit that
width (`countFrom_eq_foldl`).
-/

set_option autoImplicit false

namespace Chip8

/-- A guard that is broken. -/
inductive Violation where
  /-- A bank has no such cell. -/
  | outside (index size : Nat)
  /-- A number does not fit the bits provided for it. -/
  | overflow (value bits : Nat)
  /-- A difference is negative. -/
  | underflow (minuend subtrahend : Nat)
  /-- A byte is shifted out of its bits. -/
  | overshift (places : Nat)
  /-- A buffer has no room left. -/
  | full (capacity : Nat)
  deriving DecidableEq, Repr

/-- A result, unless a guard is broken. -/
abbrev Guarded := Except Violation

/-! ## Guards -/

namespace Cells

variable {α : Type} {n : Nat} (c : Cells α n)

/-- What the cell with a number holds. -/
def fetch (index : Nat) : Guarded α :=
  if h : index < n then .ok (c.get ⟨index, h⟩) else .error (.outside index n)

/-- Puts a value into the cell with a number. -/
def store (index : Nat) (a : α) : Guarded (Cells α n) :=
  if h : index < n then .ok (c.set ⟨index, h⟩ a) else .error (.outside index n)

theorem fetch_eq_get (i : Fin n) : c.fetch i.val = pure (c.get i) := dif_pos i.isLt

theorem store_eq_set (i : Fin n) (a : α) : c.store i.val a = pure (c.set i a) := dif_pos i.isLt

end Cells

namespace Guarded

/-- A number that has to fit a number of bits. -/
def fit (bits value : Nat) : Guarded Nat :=
  if value < 2 ^ bits then .ok value else .error (.overflow value bits)

/-- A difference. -/
def minus (a b : Nat) : Guarded Nat := if b ≤ a then .ok (a - b) else .error (.underflow a b)

/-- A byte moved to the right. -/
def shifted (b : UInt8) (places : Nat) : Guarded UInt8 :=
  if places < 8 then .ok (b >>> UInt8.ofNat places) else .error (.overshift places)

/-- A buffer with one more value at its end. -/
def push {α : Type} (capacity : Nat) (buffer : List α) (a : α) : Guarded (List α) :=
  if buffer.length < capacity then .ok (buffer ++ [a]) else .error (.full capacity)

/-- Carries `body` out `n` times, with a counter of `bits` bits that begins at `k`. -/
def countFrom {β : Type} (bits : Nat) (body : Nat → β → Guarded β) : Nat → Nat → β → Guarded β
  | _, 0, b => return b
  | k, n + 1, b => do
      let b ← body k b
      let k ← fit bits (k + 1)
      countFrom bits body k n b

theorem fit_of_lt {bits value : Nat} (h : value < 2 ^ bits) : fit bits value = pure value :=
  if_pos h

theorem minus_of_le {a b : Nat} (h : b ≤ a) : minus a b = pure (a - b) := if_pos h

theorem shifted_of_lt (b : UInt8) {places : Nat} (h : places < 8) :
    shifted b places = pure (b >>> UInt8.ofNat places) := if_pos h

theorem push_of_lt {α : Type} {capacity : Nat} {buffer : List α} (h : buffer.length < capacity)
    (a : α) : push capacity buffer a = pure (buffer ++ [a]) := if_pos h

/-- A loop is a fold over the values of its counter. What the loop keeps (`P`) may be used to show
that its body breaks no guard. -/
theorem countFrom_eq_foldl {β : Type} {bits : Nat} {body : Nat → β → Guarded β} {f : β → Nat → β}
    (P : β → Prop) {k n : Nat} (hfit : k + n < 2 ^ bits) {b : β} (hb : P b)
    (hbody : ∀ j b, j < k + n → P b → body j b = pure (f b j) ∧ P (f b j)) :
    countFrom bits body k n b = pure ((List.range' k n).foldl f b) := by
  induction n generalizing k b with
  | zero => rfl
  | succ n ih =>
    obtain ⟨hfirst, hkeeps⟩ := hbody k b (by omega) hb
    have hcounter : k + 1 < 2 ^ bits := by omega
    rw [countFrom, hfirst, pure_bind, fit_of_lt hcounter, pure_bind]
    refine ih (by omega) hkeeps fun j b hj hP => hbody j b (by omega) hP

end Guarded

open Guarded

/-! ## Registers and memory -/

/-- The number of the register that a byte names. -/
def registerIndex (b : UInt8) : Nat := (b &&& 0x0F).toNat

/-- The number of the memory cell that an address names. -/
def memoryIndex (a : UInt16) : Nat := (a &&& 0x0FFF).toNat

/-- The number of the slot that a stack pointer names. -/
def stackIndex (sp : UInt8) : Nat := sp.toNat % 16

theorem registerIndex_eq (b : UInt8) : registerIndex b = (Nibble.ofByte b).val := by
  rw [registerIndex, UInt8.toNat_and]
  exact Nat.and_two_pow_sub_one_eq_mod b.toNat 4

theorem memoryIndex_eq (a : UInt16) : memoryIndex a = (Memory.cell a).val := by
  rw [memoryIndex, UInt16.toNat_and]
  exact Nat.and_two_pow_sub_one_eq_mod a.toNat 12

namespace State

variable (s : State)

/-- The content of the register that a byte names. -/
def fetchReg (r : UInt8) : Guarded UInt8 := s.v.fetch (registerIndex r)

/-- Sets the register that a byte names. -/
def storeReg (r b : UInt8) : Guarded State := do
  return { s with v := ← s.v.store (registerIndex r) b }

/-- The byte at an address. -/
def fetchByte (a : UInt16) : Guarded UInt8 := s.memory.fetch (memoryIndex a)

/-- Puts a byte at an address. -/
def storeByte (a : UInt16) (b : UInt8) : Guarded State := do
  return { s with memory := ← s.memory.store (memoryIndex a) b }

@[simp]
theorem fetchReg_eq (r : UInt8) : s.fetchReg r = pure (s.reg (.ofByte r)) := by
  rw [fetchReg, registerIndex_eq, Cells.fetch_eq_get]
  rfl

@[simp]
theorem storeReg_eq (r b : UInt8) : s.storeReg r b = pure (s.setReg (.ofByte r) b) := by
  rw [storeReg, registerIndex_eq, Cells.store_eq_set]
  rfl

@[simp]
theorem fetchByte_eq (a : UInt16) : s.fetchByte a = pure (s.memory.read a) := by
  rw [fetchByte, memoryIndex_eq, Cells.fetch_eq_get]
  rfl

@[simp]
theorem storeByte_eq (a : UInt16) (b : UInt8) :
    s.storeByte a b = pure { s with memory := s.memory.write a b } := by
  rw [storeByte, memoryIndex_eq, Cells.store_eq_set]
  rfl

end State

/-! ## Bare operands -/

namespace Operand

/-- The first register's nibble in the bits of an operand. -/
def bareX (w : UInt16) : UInt8 := (w >>> 8 &&& 0x0F).toUInt8

/-- The second register's nibble. -/
def bareY (w : UInt16) : UInt8 := (w >>> 4 &&& 0x0F).toUInt8

/-- The last nibble. -/
def bareN (w : UInt16) : UInt8 := (w &&& 0x0F).toUInt8

/-- The low eight bits. -/
def bareByte (w : UInt16) : UInt8 := (w &&& 0xFF).toUInt8

/-- The twelve bits of an address. -/
def bareAddr (w : UInt16) : UInt16 := w &&& 0x0FFF

section

variable (w : UInt16)

/-- The low `k` bits of a word. -/
theorem toNat_and_mask (mask : UInt16) (k : Nat) (h : mask.toNat = 2 ^ k - 1) :
    (w &&& mask).toNat = w.toNat % 2 ^ k := by
  rw [UInt16.toNat_and, h]
  exact Nat.and_two_pow_sub_one_eq_mod w.toNat k

/-- The last four bits of a word, as a byte. -/
theorem toNat_lowNibble : (w &&& 0x0F).toUInt8.toNat = w.toNat % 16 := by
  rw [UInt16.toNat_toUInt8, toNat_and_mask w _ 4 rfl]
  omega

/-- The four bits behind the last `k`, as a byte. -/
theorem toNat_nibbleBehind (k : UInt16) (hk : k.toNat < 16) :
    (w >>> k &&& 0x0F).toUInt8.toNat = w.toNat / 2 ^ k.toNat % 16 := by
  rw [toNat_lowNibble, UInt16.toNat_shiftRight, Nat.mod_eq_of_lt hk, Nat.shiftRight_eq_div_pow]

/-- The nibble of the first register is a number below sixteen. -/
theorem toNat_bareX : (bareX w).toNat = (ofWord w).x.val := toNat_nibbleBehind w 8 (by decide)

/-- So is that of the second. -/
theorem toNat_bareY : (bareY w).toNat = (ofWord w).y.val := toNat_nibbleBehind w 4 (by decide)

/-- So is the last nibble. -/
theorem toNat_bareN : (bareN w).toNat = (ofWord w).n.val := toNat_lowNibble w

/-- A byte with the number of a register names the register. -/
theorem ofByte_eq_of_toNat_eq {b : UInt8} {r : Nibble} (h : b.toNat = r.val) :
    Nibble.ofByte b = r := by
  apply Fin.ext
  show b.toNat % 16 = r.val
  rw [h, Nat.mod_eq_of_lt r.isLt]

@[simp]
theorem ofByte_bareX : Nibble.ofByte (bareX w) = (ofWord w).x :=
  ofByte_eq_of_toNat_eq (toNat_bareX w)

@[simp]
theorem ofByte_bareY : Nibble.ofByte (bareY w) = (ofWord w).y :=
  ofByte_eq_of_toNat_eq (toNat_bareY w)

@[simp]
theorem bareByte_eq : bareByte w = (ofWord w).byte := by
  have h : (w &&& 0xFF).toNat = w.toNat % 256 := toNat_and_mask w _ 8 rfl
  apply UInt8.toNat_inj.1
  show (w &&& 0xFF).toNat % 256 = (UInt8.ofNat (16 * (w.toNat / 16 % 16) + w.toNat % 16)).toNat
  rw [UInt8.toNat_ofNat']
  omega

@[simp]
theorem bareAddr_eq : bareAddr w = (ofWord w).addr := by
  apply UInt16.toNat_inj.1
  rw [bareAddr, toNat_and_mask w _ 12 rfl]
  show _ = (UInt16.ofNat
    (256 * (w.toNat / 256 % 16) + 16 * (w.toNat / 16 % 16) + w.toNat % 16)).toNat
  rw [UInt16.toNat_ofNat']
  omega

end

end Operand

end Chip8
