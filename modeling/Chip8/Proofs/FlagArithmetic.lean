import Chip8.Proofs.Footprint
import Mathlib.Data.Nat.Bitwise

/-!
# Arithmetic with a flag

Five operations write the flag and then a result (`State.setFlagged`). If the destination is
another register, flag and result together are exact: sum and carry, or the shifted byte and the bit
that was shifted out, make up the number without wrapping, and the flag of a difference tells how
the operands compare (`flag_arithmetic_exact`).

If the destination is the flag itself, the result is written over it. A sum or a difference is that
of the operands before the instruction. A shift reads its register again once the bit to be shifted
out has taken its place, and always leaves zero (`result_wins_iff`).
-/

set_option autoImplicit false

namespace Chip8

/-! ## Bytes -/

theorem toNat_sub_emod (a b : UInt8) : ((a - b).toNat : ℤ) = (a.toNat - b.toNat) % 256 := by
  have hb := b.toNat_lt
  rw [UInt8.toNat_sub]
  omega

theorem toNat_shiftRight_one (a : UInt8) : (a >>> 1).toNat = a.toNat / 2 := by
  rw [UInt8.toNat_shiftRight]
  exact Nat.shiftRight_eq_div_pow a.toNat 1

theorem toNat_shiftLeft_one (a : UInt8) : (a <<< 1).toNat = 2 * a.toNat % 256 := by
  rw [UInt8.toNat_shiftLeft, Nat.mul_comm]
  show a.toNat <<< 1 % 256 = _
  rw [Nat.shiftLeft_eq]

theorem toNat_and_topBit (a : UInt8) : (a &&& 0x80).toNat = 128 * (a.toNat / 128) := by
  have ha := a.toNat_lt
  rw [UInt8.toNat_and]
  show a.toNat &&& 2 ^ 7 = _
  rw [Nat.and_two_pow, Nat.testBit_eq_decide_div_mod_eq]
  rcases Nat.lt_or_ge a.toNat 128 with hlt | hge
  · have hbit : a.toNat / 128 = 0 := by omega
    simp [hbit]
  · have hbit : a.toNat / 128 = 1 := by omega
    simp [hbit]

/-! ## Flag and result -/

namespace State

theorem toNat_flagByte (p : Prop) [Decidable p] : (flagByte p).toNat = if p then 1 else 0 := by
  by_cases h : p
  · rw [decide_eq_true h, if_pos h]
    rfl
  · rw [decide_eq_false h, if_neg h]
    rfl

/-- A byte and its carry make up the sum. -/
theorem toNat_add_carry (a b : UInt8) :
    (a + b).toNat + 256 * (flagByte (a.toNat + b.toNat ≥ 256)).toNat = a.toNat + b.toNat := by
  have ha := a.toNat_lt
  have hb := b.toNat_lt
  rw [UInt8.toNat_add, toNat_flagByte]
  split <;> omega

/-- Writes the flag and then a result to its destination. -/
def setFlagged (s : State) (x : Nibble) (f b : UInt8) : State := (s.setReg flag f).setReg x b

/-- The effect of the word `8xyn`, an operation on two registers. -/
def combine (s : State) (inputs : Inputs) (x y n : Nibble) : State :=
  s.execute inputs (.ofWord (wordOfBytes (byteOfNibbles 0x8 x) (byteOfNibbles y n)))

section

variable (s : State) (inputs : Inputs) (x y : Nibble)

theorem reg_setFlagged (f b : UInt8) (r : Nibble) :
    (s.setFlagged x f b).reg r = if x = r then b else if flag = r then f else s.reg r := by
  rw [setFlagged, reg_setReg, reg_setReg]

theorem reg_setFlagged_self (f b : UInt8) : (s.setFlagged x f b).reg x = b := by
  rw [reg_setFlagged, if_pos rfl]

theorem reg_setFlagged_flag {x : Nibble} (hx : x ≠ flag) (f b : UInt8) :
    (s.setFlagged x f b).reg flag = f := by
  rw [reg_setFlagged, if_neg hx, if_pos rfl]

theorem combine_add :
    s.combine inputs x y 0x4 =
      s.setFlagged x (flagByte ((s.reg x).toNat + (s.reg y).toNat ≥ 256)) (s.reg x + s.reg y) := by
  rw [combine, Instruction.ofWord_of_fits .add rfl rfl]
  rfl

theorem combine_subtract :
    s.combine inputs x y 0x5 =
      s.setFlagged x (flagByte (s.reg x > s.reg y)) (s.reg x - s.reg y) := by
  rw [combine, Instruction.ofWord_of_fits .subtract rfl rfl]
  rfl

/-- A shift works on its register as it is after the flag has been written. -/
theorem combine_shiftRight :
    s.combine inputs x y 0x6 =
      s.setFlagged x (s.reg x &&& 1) ((if flag = x then s.reg x &&& 1 else s.reg x) >>> 1) := by
  rw [combine, Instruction.ofWord_of_fits .shiftRight rfl rfl, ← reg_setReg]
  rfl

theorem combine_shiftLeft :
    s.combine inputs x y 0xE =
      s.setFlagged x (s.reg x &&& 0x80)
        ((if flag = x then s.reg x &&& 0x80 else s.reg x) <<< 1) := by
  rw [combine, Instruction.ofWord_of_fits .shiftLeft rfl rfl, ← reg_setReg]
  rfl

/-- With no operand in the flag, it makes no difference that the operands are read again. -/
theorem combine_subtractFrom {x y : Nibble} (hx : x ≠ flag) (hy : y ≠ flag) :
    s.combine inputs x y 0x7 =
      s.setFlagged x (flagByte (s.reg y ≤ s.reg x)) (s.reg y - s.reg x) := by
  have hread : ∀ f r, r ≠ flag → (s.setReg flag f).reg r = s.reg r := by
    intro f r hr
    rw [reg_setReg, if_neg hr.symm]
  rw [combine, Instruction.ofWord_of_fits .subtractFrom rfl rfl]
  show (s.setReg flag _).setReg x ((s.setReg flag _).reg y - (s.setReg flag _).reg x) = _
  rw [hread _ y hy, hread _ x hx, setFlagged]

/-- Each of the five operations writes a flag and a result. -/
theorem exists_combine_eq_setFlagged {n : Nibble} (hn : n ∈ [0x4, 0x5, 0x6, 0x7, 0xE]) :
    ∃ f b, s.combine inputs x y n = s.setFlagged x f b := by
  simp only [List.mem_cons, List.not_mem_nil, or_false] at hn
  rcases hn with rfl | rfl | rfl | rfl | rfl
  · exact ⟨_, _, s.combine_add inputs x y⟩
  · exact ⟨_, _, s.combine_subtract inputs x y⟩
  · exact ⟨_, _, s.combine_shiftRight inputs x y⟩
  · rw [combine, Instruction.ofWord_of_fits .subtractFrom rfl rfl]
    exact ⟨_, _, rfl⟩
  · exact ⟨_, _, s.combine_shiftLeft inputs x y⟩

end

end State

/-- Flag and result are exact if the destination is not the flag. For `8xy4` the result and the
carry make up the sum. For `8xy5` the result is the difference modulo 256, and the flag tells
whether the first operand is greater. For `8xy6` and `8xyE` the result and the bit shifted out make
up the byte and its double; the bit shifted out to the left is not moved to the lowest place. For
`8xy7` without an operand in the flag, the result is that of `8yx5`, and the flag is the opposite
one. The operands may be the same register, and the second one of `8xy4` and `8xy5` may be the flag,
with its value from before. The other registers keep their values, and nothing else changes. -/
theorem flag_arithmetic_exact (s : State) (inputs : Inputs) {x : Nibble} (hx : x ≠ State.flag)
    (y : Nibble) :
    let vx := (s.reg x).toNat
    let vy := (s.reg y).toNat
    let result := fun n => ((s.combine inputs x y n).reg x).toNat
    let flag := fun n => ((s.combine inputs x y n).reg State.flag).toNat
    (result 0x4 + 256 * flag 0x4 = vx + vy ∧ (flag 0x4 = 0 ∨ flag 0x4 = 1)) ∧
      ((result 0x5 : ℤ) = (vx - vy) % 256 ∧ flag 0x5 = if vx > vy then 1 else 0) ∧
      (2 * result 0x6 + flag 0x6 = vx ∧ (flag 0x6 = 0 ∨ flag 0x6 = 1)) ∧
      (result 0xE + 2 * flag 0xE = 2 * vx ∧ (flag 0xE = 0 ∨ flag 0xE = 0x80)) ∧
      (y ≠ State.flag →
        let t := s.combine inputs y x 0x5
        ((result 0x7 : ℤ) = (vy - vx) % 256 ∧ flag 0x7 = if vy ≤ vx then 1 else 0) ∧
          result 0x7 = (t.reg y).toNat ∧ flag 0x7 + (t.reg State.flag).toNat = 1) ∧
      ∀ n ∈ [0x4, 0x5, 0x6, 0x7, 0xE],
        let t := s.combine inputs x y n
        t = { s with v := t.v } ∧ ∀ r, r ≠ x → r ≠ State.flag → t.reg r = s.reg r := by
  intro vx vy result flag
  have hvx : vx < 256 := (s.reg x).toNat_lt
  have hread : ∀ {n f b}, s.combine inputs x y n = s.setFlagged x f b →
      result n = b.toNat ∧ flag n = f.toNat := by
    intro n f b h
    refine ⟨?_, ?_⟩
    · show ((s.combine inputs x y n).reg x).toNat = _
      rw [h, State.reg_setFlagged_self]
    · show ((s.combine inputs x y n).reg State.flag).toNat = _
      rw [h, State.reg_setFlagged_flag s hx]
  refine ⟨?_, ?_, ?_, ?_, fun hy => ?_, fun n hn => ?_⟩
  · obtain ⟨hresult, hflag⟩ := hread (s.combine_add inputs x y)
    rw [hresult, hflag]
    refine ⟨State.toNat_add_carry _ _, ?_⟩
    rw [State.toNat_flagByte]
    split <;> simp
  · obtain ⟨hresult, hflag⟩ := hread (s.combine_subtract inputs x y)
    rw [hresult, hflag]
    exact ⟨toNat_sub_emod _ _, State.toNat_flagByte _⟩
  · obtain ⟨hresult, hflag⟩ := hread (s.combine_shiftRight inputs x y)
    rw [if_neg hx.symm, toNat_shiftRight_one] at hresult
    rw [State.toNat_and_one] at hflag
    omega
  · obtain ⟨hresult, hflag⟩ := hread (s.combine_shiftLeft inputs x y)
    rw [if_neg hx.symm, toNat_shiftLeft_one] at hresult
    rw [toNat_and_topBit] at hflag
    omega
  · intro t
    obtain ⟨hresult, hflag⟩ := hread (s.combine_subtractFrom inputs hx hy)
    have ht : t = s.setFlagged y (State.flagByte (s.reg y > s.reg x)) (s.reg y - s.reg x) :=
      s.combine_subtract inputs y x
    rw [State.toNat_flagByte] at hflag
    refine ⟨⟨?_, hflag⟩, ?_, ?_⟩
    · rw [hresult]
      exact toNat_sub_emod _ _
    · rw [hresult, ht, State.reg_setFlagged_self]
    · -- Exactly one of the two comparisons holds.
      rw [hflag, ht, State.reg_setFlagged_flag s hy, State.toNat_flagByte]
      simp only [gt_iff_lt, UInt8.lt_iff_toNat_lt, UInt8.le_iff_toNat_le]
      split <;> split <;> omega
  · intro t
    obtain ⟨f, b, h⟩ := s.exists_combine_eq_setFlagged inputs x y hn
    have ht : t = s.setFlagged x f b := h
    refine ⟨?_, fun r hrx hrf => ?_⟩
    · rw [ht]
      rfl
    · rw [ht, State.reg_setFlagged, if_neg hrx.symm, if_neg hrf.symm]

/-- A state with a byte that does not fit when it is doubled, and another one in the flag. -/
def State.topHeavy : State := (State.initial.setReg 3 0xC1).setReg State.flag 0x50

/-- The flag is the second operand of `8xy4` and `8xy5`, with the value that it had before. -/
theorem topHeavy_results_exact :
    let s := State.topHeavy
    let result := fun n => ((s.combine ⟨Keypad.none, 0⟩ 3 State.flag n).reg 3).toNat
    let flag := fun n => ((s.combine ⟨Keypad.none, 0⟩ 3 State.flag n).reg State.flag).toNat
    (3 : Nibble) ≠ State.flag ∧ result 0x4 + 256 * flag 0x4 = 0xC1 + 0x50 ∧
      (result 0x5 : ℤ) = (0xC1 - 0x50) % 256 ∧ 2 * result 0x6 + flag 0x6 = 0xC1 ∧
      result 0xE + 2 * flag 0xE = 2 * 0xC1 ∧
      let t := s.combine ⟨Keypad.none, 0⟩ 3 4 0x7
      ((t.reg 3).toNat : ℤ) = (0 - 0xC1) % 256 ∧ (t.reg State.flag).toNat = 1 := by
  intro s result flag
  have hx : (3 : Nibble) ≠ State.flag := by decide
  have hy : (4 : Nibble) ≠ State.flag := by decide
  obtain ⟨hadd, hsubtract, hright, hleft, -, -⟩ :=
    flag_arithmetic_exact s ⟨Keypad.none, 0⟩ hx State.flag
  obtain ⟨-, -, -, -, hfrom, -⟩ := flag_arithmetic_exact s ⟨Keypad.none, 0⟩ hx 4
  exact ⟨hx, hadd.1, hsubtract.1, hright.1, hleft.1, (hfrom hy).1⟩

/-- What the flag holds if it is the destination. For `8Fy4` and `8Fy5` that is the sum or the
difference of the operands before the instruction, also if both of them are the flag. After `8Fy6`
and `8FyE` it is always zero. So `8Fy6` leaves the shifted byte if and only if the flag held 0 or 1,
and `8FyE` if and only if it held 0 or `0x80`. -/
theorem result_wins_iff (s : State) (inputs : Inputs) (y : Nibble) :
    let vf := (s.reg State.flag).toNat
    let vy := (s.reg y).toNat
    let result := fun n => ((s.combine inputs State.flag y n).reg State.flag).toNat
    result 0x4 = (vf + vy) % 256 ∧ (result 0x5 : ℤ) = (vf - vy) % 256 ∧
      result 0x6 = 0 ∧ (result 0x6 = vf / 2 ↔ vf = 0 ∨ vf = 1) ∧
      result 0xE = 0 ∧ (result 0xE = 2 * vf % 256 ↔ vf = 0 ∨ vf = 0x80) := by
  intro vf vy result
  have hvf : vf < 256 := (s.reg State.flag).toNat_lt
  have hresult : ∀ {n f b}, s.combine inputs State.flag y n = s.setFlagged State.flag f b →
      result n = b.toNat := by
    intro n f b h
    show ((s.combine inputs State.flag y n).reg State.flag).toNat = _
    rw [h, State.reg_setFlagged_self]
  have hright : result 0x6 = 0 := by
    rw [hresult (s.combine_shiftRight inputs State.flag y), if_pos rfl, toNat_shiftRight_one,
      State.toNat_and_one]
    omega
  have hleft : result 0xE = 0 := by
    rw [hresult (s.combine_shiftLeft inputs State.flag y), if_pos rfl, toNat_shiftLeft_one,
      toNat_and_topBit]
    omega
  refine ⟨?_, ?_, hright, ?_, hleft, ?_⟩
  · rw [hresult (s.combine_add inputs State.flag y)]
    exact UInt8.toNat_add _ _
  · rw [hresult (s.combine_subtract inputs State.flag y)]
    exact toNat_sub_emod _ _
  · rw [hright]
    omega
  · rw [hleft]
    omega

/-- Half of 6 is 3 and twice 6 is 12, but shifting the flag leaves zero. -/
theorem shifted_flag_is_lost :
    let s := State.initial.setReg State.flag 6
    let result := fun n =>
      ((s.combine ⟨Keypad.none, 0⟩ State.flag 0 n).reg State.flag).toNat
    (s.reg State.flag).toNat = 6 ∧ result 0x6 ≠ 6 / 2 ∧ result 0xE ≠ 2 * 6 % 256 := by
  intro s result
  have hs : s.reg State.flag = 6 := by
    rw [State.reg_setReg, if_pos rfl]
  refine ⟨congrArg UInt8.toNat hs, ?_, ?_⟩
  · show ((s.combine _ _ _ 0x6).reg _).toNat ≠ _
    rw [State.combine_shiftRight, State.reg_setFlagged_self, if_pos rfl, hs]
    decide
  · show ((s.combine _ _ _ 0xE).reg _).toNat ≠ _
    rw [State.combine_shiftLeft, State.reg_setFlagged_self, if_pos rfl, hs]
    decide

end Chip8
