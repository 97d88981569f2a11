import Chip8.Hexadecimal
import Mathlib.Algebra.Ring.Nat
import Mathlib.Data.List.Basic

/-!
# Hexadecimal numerals

A numeral consists of the digits of its number in base sixteen, in upper case and with zeros in
front up to the width (`Hexadecimal.numeral_eq_padded`). A number that the width has room for takes
exactly the width, and within a width no two numbers share a numeral
(`Hexadecimal.eq_of_numeral_eq`).
-/

set_option autoImplicit false

namespace Chip8.Hexadecimal

/-! ## Digits -/

theorem digit_injective : ∀ d e : Nibble, digit d = digit e → d = e := by
  decide

theorem digit_eq_toUpper : ∀ d : Nibble, digit d = (Nat.digitChar d.val).toUpper := by
  decide

theorem length_lowNibbles (k n : Nat) : (lowNibbles k n).length = k := by
  induction k generalizing n with
  | zero => rfl
  | succ k ih => rw [lowNibbles, List.length_append, ih, List.length_singleton]

theorem mod_eq_of_lowNibbles_eq {k n m : Nat} (h : lowNibbles k n = lowNibbles k m) :
    n % 16 ^ k = m % 16 ^ k := by
  induction k generalizing n m with
  | zero => rw [Nat.pow_zero, Nat.mod_one, Nat.mod_one]
  | succ k ih =>
    obtain ⟨hhigh, hlast⟩ := List.append_inj' h rfl
    have hlow : n % 16 = m % 16 := congrArg Fin.val (List.singleton_inj.1 hlast)
    rw [Nat.pow_succ', Nat.mod_mul, Nat.mod_mul, hlow, ih hhigh]

theorem map_digit_lowNibbles_zero (k : Nat) :
    (lowNibbles k 0).map digit = List.replicate k '0' := by
  induction k with
  | zero => rfl
  | succ k ih =>
    rw [lowNibbles, List.map_append, Nat.zero_div, ih, List.replicate_succ']
    rfl

theorem leftpad_append_singleton (k : Nat) (cs : List Char) (c : Char) :
    (cs ++ [c]).leftpad (k + 1) '0' = cs.leftpad k '0' ++ [c] := by
  simp only [List.leftpad, List.length_append, List.length_singleton, Nat.add_sub_add_right,
    List.append_assoc]

/-- The last nibble is the last digit, and the nibbles before it are the digits before it. -/
theorem map_digit_lowNibbles {k n : Nat} (hk : 0 < k) (hn : n < 16 ^ k) :
    (lowNibbles k n).map digit = ((Nat.toDigits 16 n).map Char.toUpper).leftpad k '0' := by
  induction k generalizing n with
  | zero => exact absurd hk (Nat.lt_irrefl 0)
  | succ k ih =>
    have hlast : digit (.ofNat n) = (Nat.digitChar (n % 16)).toUpper := digit_eq_toUpper _
    rw [lowNibbles, List.map_append, List.map_singleton, hlast]
    -- A number of one digit has only zeros in front of it.
    rcases Nat.lt_or_ge n 16 with hlt | hge
    · rw [Nat.toDigits_of_lt_base hlt, Nat.div_eq_of_lt hlt, map_digit_lowNibbles_zero,
        Nat.mod_eq_of_lt hlt]
      rfl
    · have hdiv : n / 16 < 16 ^ k := by
        rw [Nat.pow_succ] at hn
        omega
      have hpos : 0 < k := by
        rcases Nat.eq_zero_or_pos k with rfl | hpos
        · omega
        · exact hpos
      rw [Nat.toDigits_of_base_le (by decide) hge, List.map_append, List.map_singleton,
        leftpad_append_singleton, ih hpos hdiv]

/-! ## Width -/

theorem length_eq_length_toDigits (n : Nat) : length n = (Nat.toDigits 16 n).length := by
  rcases Nat.eq_zero_or_pos n with rfl | hn
  · rfl
  · have hle : ∀ k, 0 < k → ((Nat.toDigits 16 n).length ≤ k ↔ n.log2 < 4 * k) := by
      intro k hk
      rw [Nat.length_toDigits_le_iff (by decide) hk, Nat.log2_lt (Nat.ne_of_gt hn), Nat.pow_mul]
    have hlog := (hle _ Nat.length_toDigits_pos).1 (Nat.le_refl _)
    apply Nat.le_antisymm
    · rw [length]
      omega
    · refine (hle _ (Nat.succ_pos _)).2 ?_
      omega

theorem length_le_iff {width n : Nat} (hwidth : 0 < width) : length n ≤ width ↔ n < 16 ^ width := by
  rw [length_eq_length_toDigits]
  exact Nat.length_toDigits_le_iff (by decide) hwidth

/-! ## Numerals -/

/-- The digits of a number in base sixteen, in upper case and with zeros in front up to a width. -/
def padded (width n : Nat) : String :=
  .ofList (((Nat.toDigits 16 n).map Char.toUpper).leftpad width '0')

theorem numeral_eq_padded (width n : Nat) : numeral width n = padded width n := by
  have hpos : 0 < max width (length n) := Nat.lt_of_lt_of_le (Nat.succ_pos _) (Nat.le_max_right _ _)
  have hn : n < 16 ^ max width (length n) := (length_le_iff hpos).1 (Nat.le_max_right _ _)
  -- No zeros are missing where the number needs more digits than the width has.
  have hzeros : max width (length n) - (Nat.toDigits 16 n).length =
      width - (Nat.toDigits 16 n).length := by
    rw [length_eq_length_toDigits]
    omega
  rw [numeral, padded, map_digit_lowNibbles hpos hn, List.leftpad, List.leftpad, List.length_map,
    hzeros]

/-- A number that the width has room for takes exactly the width. -/
theorem toList_numeral (width n : Nat) (hwidth : 0 < width) (hn : n < 16 ^ width) :
    (numeral width n).toList = (lowNibbles width n).map digit := by
  rw [numeral, String.toList_ofList, Nat.max_eq_left ((length_le_iff hwidth).2 hn)]

theorem eq_of_numeral_eq (width : Nat) {n m : Nat} (hwidth : 0 < width) (hn : n < 16 ^ width)
    (hm : m < 16 ^ width) (h : numeral width n = numeral width m) : n = m := by
  have hlist := congrArg String.toList h
  rw [toList_numeral width n hwidth hn, toList_numeral width m hwidth hm] at hlist
  have hmod := mod_eq_of_lowNibbles_eq (List.map_injective_iff.2 digit_injective hlist)
  rwa [Nat.mod_eq_of_lt hn, Nat.mod_eq_of_lt hm] at hmod

end Chip8.Hexadecimal
