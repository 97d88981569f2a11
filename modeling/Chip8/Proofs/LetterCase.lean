import Mathlib
import Chip8.Settings

/-!
# Keys and the case of letters

Two characters are equal ignoring case if their lower cases have a character in common
(`Text.EqIgnoringCase`). The characters held down are read in lower case, while the characters of a
keymap are taken as they are. So a held character finds only those of a keymap that are in lower
case themselves. Keys are held regardless of case exactly with keymaps in which every character has
its lower case beside it for the same slot (`heldKeys_ignores_case_iff`).

Behind this is a law of lower case: what it makes of a character it leaves as it is
(`Text.isLowerCase_of_mem_lowerCase`).
-/

set_option autoImplicit false

namespace Chip8

namespace Text

/-! ## Lower case is in lower case -/

/-- Numbers as the set bits of one number. So two long lists are compared in one operation. -/
def bits (ns : List Nat) : Nat := ns.foldr (fun n rest => 2 ^ n ||| rest) 0

theorem testBit_bits {ns : List Nat} {n : Nat} : (bits ns).testBit n = true ↔ n ∈ ns := by
  induction ns with
  | nil => simp [bits]
  | cons k ns ih =>
    rw [bits, List.foldr_cons, Nat.testBit_or, Bool.or_eq_true, Nat.testBit_two_pow,
      decide_eq_true_eq, List.mem_cons, eq_comm]
    exact or_congr Iff.rfl ih

theorem disjoint_of_bits {ms ns : List Nat} (h : bits ms &&& bits ns = 0) : ms.Disjoint ns := by
  intro n hm hn
  have hboth : (bits ms &&& bits ns).testBit n = true := by
    rw [Nat.testBit_and, testBit_bits.2 hm, testBit_bits.2 hn]
    rfl
  rw [h, Nat.zero_testBit] at hboth
  exact Bool.noConfusion hboth

namespace CapitalBlock

theorem contains_iff {b : CapitalBlock} {c : Char} :
    b.contains c = true ↔
      b.first ≤ c.toNat ∧ c.toNat ≤ b.last ∧ (c.toNat - b.first) % b.stride = 0 := by
  simp only [contains, Bool.and_eq_true, decide_eq_true_eq, beq_iff_eq, and_assoc]

/-- The numbers from `start` on at the distances of the block's capitals. -/
def numbersFrom (b : CapitalBlock) (start : Nat) : List Nat :=
  (List.range ((b.last - b.first) / b.stride + 1)).map fun k => start + b.stride * k

theorem add_mem_numbersFrom {b : CapitalBlock} {c : Char} (h : b.contains c = true) (start : Nat) :
    start + (c.toNat - b.first) ∈ b.numbersFrom start := by
  obtain ⟨-, hlast, hstride⟩ := contains_iff.1 h
  have hsteps : b.stride * ((c.toNat - b.first) / b.stride) = c.toNat - b.first := by
    have hdiv := Nat.div_add_mod (c.toNat - b.first) b.stride
    rwa [hstride, Nat.add_zero] at hdiv
  have hle : (c.toNat - b.first) / b.stride ≤ (b.last - b.first) / b.stride :=
    Nat.div_le_div_right (Nat.sub_le_sub_right hlast b.first)
  exact List.mem_map.2 ⟨_, List.mem_range.2 (Nat.lt_succ_of_le hle), by rw [hsteps]⟩

end CapitalBlock

/-- The numbers of all capitals. -/
def capitalNumbers : List Nat :=
  dottedCapitalI.toNat :: CapitalBlock.all.flatMap fun b => b.numbersFrom b.first

/-- The numbers of their lower cases, and zero for numbers that are no characters. -/
def imageNumbers : List Nat := 0 :: CapitalBlock.all.flatMap fun b => b.numbersFrom b.lower

theorem disjoint_capitalNumbers : capitalNumbers.Disjoint imageNumbers :=
  disjoint_of_bits (by decide +kernel)

theorem CapitalBlock.toNat_image_mem {b : CapitalBlock} (hb : b ∈ all) {c : Char}
    (hc : b.contains c = true) : (b.image c).toNat ∈ imageNumbers := by
  rw [image, Char.toNat_ofNat]
  -- A number that is no character makes the character zero.
  split
  · exact List.mem_cons_of_mem _ (List.mem_flatMap.2 ⟨b, hb, add_mem_numbersFrom hc b.lower⟩)
  · exact List.mem_cons_self

/-- A character is in lower case. -/
def IsLowerCase (c : Char) : Prop := lowerCase c = [c]

/-- A character that is no capital is in lower case. -/
theorem isLowerCase_of_not_mem {c : Char} (h : c.toNat ∉ capitalNumbers) : IsLowerCase c := by
  have hdotted : c ≠ dottedCapitalI := by
    rintro rfl
    exact h List.mem_cons_self
  have hfind : CapitalBlock.all.find? (·.contains c) = none := by
    rw [List.find?_eq_none]
    intro b hb hc
    have hmem := CapitalBlock.add_mem_numbersFrom hc b.first
    rw [Nat.add_sub_cancel' (CapitalBlock.contains_iff.1 hc).1] at hmem
    exact h (List.mem_cons_of_mem _ (List.mem_flatMap.2 ⟨b, hb, hmem⟩))
  rw [IsLowerCase, lowerCase, if_neg hdotted, hfind]

/-- Lower case leaves as it is what it makes. -/
theorem isLowerCase_of_mem_lowerCase {c d : Char} (h : d ∈ lowerCase c) : IsLowerCase d := by
  by_cases hdotted : c = dottedCapitalI
  · rw [lowerCase, if_pos hdotted, List.mem_pair] at h
    rcases h with rfl | rfl
    · exact isLowerCase_of_not_mem (by decide +kernel)
    · exact isLowerCase_of_not_mem (by decide +kernel)
  · cases hfind : CapitalBlock.all.find? (·.contains c) with
    | some b =>
      rw [lowerCase, if_neg hdotted, hfind, List.mem_singleton] at h
      have hc : b.contains c = true := by simpa using List.find?_some hfind
      rw [h]
      -- An image of one block could be a capital of another one, so all blocks are compared.
      exact isLowerCase_of_not_mem fun hcapital =>
        disjoint_capitalNumbers hcapital
          (CapitalBlock.toNat_image_mem (List.mem_of_find?_eq_some hfind) hc)
    | none =>
      have hc : lowerCase c = [c] := by rw [lowerCase, if_neg hdotted, hfind]
      rw [hc, List.mem_singleton] at h
      rw [h]
      exact hc

/-- Two characters are equal ignoring case. -/
def EqIgnoringCase (c d : Char) : Prop := ∃ l, l ∈ lowerCase c ∧ l ∈ lowerCase d

/-- What equals a character in lower case ignoring case has that character in its lower case. -/
theorem IsLowerCase.eqIgnoringCase_iff {k : Char} (h : IsLowerCase k) (c : Char) :
    EqIgnoringCase c k ↔ k ∈ lowerCase c := by
  have hk : lowerCase k = [k] := h
  simp only [EqIgnoringCase, hk, List.mem_singleton, exists_eq_right]

end Text

/-! ## Keymaps -/

namespace Keymap

variable (keymap : Keymap)

theorem get_heldKeys (text : String) (slot : Nibble) :
    (keymap.heldKeys text).get slot = true ↔
      ∃ c ∈ text.toList, ∃ k ∈ Text.lowerCase c, keymap.slot? k = some slot := by
  rw [heldKeys, Cells.get_ofFn, List.contains_iff_mem, List.mem_filterMap]
  simp only [List.mem_flatMap]
  constructor
  · rintro ⟨k, ⟨c, hc, hk⟩, hslot⟩
    exact ⟨c, hc, k, hk, hslot⟩
  · rintro ⟨c, hc, k, hk, hslot⟩
    exact ⟨k, ⟨c, hc, hk⟩, hslot⟩

variable {keymap}

/-- A character that stands for a slot has an entry. -/
theorem mem_of_slot? {k : Char} {slot : Nibble} (h : keymap.slot? k = some slot) :
    ∃ b, (k, b) ∈ keymap := by
  obtain ⟨b, hb, -⟩ := Option.map_eq_some_iff.1 h
  obtain ⟨before, after, heq, -⟩ := List.lookup_eq_some_iff.1 hb
  refine ⟨b, List.mem_reverse.1 ?_⟩
  rw [heq]
  exact List.mem_append_right before List.mem_cons_self

end Keymap

/-- Which keys are held. A slot is held exactly if a character of the text equals ignoring case a
character that stands for the slot and is in lower case. Characters of the keymap in any case count,
for all texts and slots, if and only if every character of the lower case of each of them stands
for the same slot as that one. -/
theorem heldKeys_ignores_case_iff (keymap : Keymap) :
    (∀ text slot, (keymap.heldKeys text).get slot = true ↔
        ∃ c ∈ text.toList, ∃ k, keymap.slot? k = some slot ∧ Text.IsLowerCase k ∧
          Text.EqIgnoringCase c k) ∧
      ((∀ text slot, (keymap.heldKeys text).get slot = true ↔
          ∃ c ∈ text.toList, ∃ k, keymap.slot? k = some slot ∧ Text.EqIgnoringCase c k) ↔
        ∀ k slot, keymap.slot? k = some slot →
          ∀ d ∈ Text.lowerCase k, keymap.slot? d = some slot) := by
  have hheld : ∀ text slot, (keymap.heldKeys text).get slot = true ↔
      ∃ c ∈ text.toList, ∃ k, keymap.slot? k = some slot ∧ Text.IsLowerCase k ∧
        Text.EqIgnoringCase c k := by
    intro text slot
    rw [keymap.get_heldKeys]
    constructor
    · rintro ⟨c, hc, k, hk, hslot⟩
      have hlower := Text.isLowerCase_of_mem_lowerCase hk
      exact ⟨c, hc, k, hslot, hlower, (hlower.eqIgnoringCase_iff c).2 hk⟩
    · rintro ⟨c, hc, k, hslot, hlower, heq⟩
      exact ⟨c, hc, k, (hlower.eqIgnoringCase_iff c).1 heq, hslot⟩
  refine ⟨hheld, ?_, ?_⟩
  · intro hignores k slot hslot d hd
    -- The text of the one character `d` finds `k`, so it has to find `d` itself.
    have hlower : Text.lowerCase d = [d] := Text.isLowerCase_of_mem_lowerCase hd
    have hmatch := (hignores (.singleton d) slot).2
      ⟨d, by simp, k, hslot, d, by simp [hlower], hd⟩
    obtain ⟨c, hc, k', hk', hslot'⟩ := (keymap.get_heldKeys _ slot).1 hmatch
    obtain rfl : c = d := by simpa using hc
    rw [hlower, List.mem_singleton] at hk'
    exact hk' ▸ hslot'
  · intro hclosed text slot
    rw [hheld]
    constructor
    · rintro ⟨c, hc, k, hslot, -, heq⟩
      exact ⟨c, hc, k, hslot, heq⟩
    · rintro ⟨c, hc, k, hslot, d, hdc, hdk⟩
      have hlower := Text.isLowerCase_of_mem_lowerCase hdk
      exact ⟨c, hc, d, hclosed k slot hslot d hdk, hlower, (hlower.eqIgnoringCase_iff c).2 hdc⟩

/-- With the default keymap, all of whose characters are in lower case, keys are held regardless of
case. -/
theorem default_keymap_ignores_case :
    ∀ text slot, (Keymap.default.heldKeys text).get slot = true ↔
      ∃ c ∈ text.toList, ∃ k, Keymap.default.slot? k = some slot ∧ Text.EqIgnoringCase c k := by
  refine (heldKeys_ignores_case_iff .default).2.2 fun k slot hslot d hd => ?_
  have hdisjoint : (Keymap.default.map fun e => e.1.toNat).Disjoint Text.capitalNumbers :=
    Text.disjoint_of_bits (by decide +kernel)
  obtain ⟨b, hb⟩ := Keymap.mem_of_slot? hslot
  have hlower : Text.lowerCase k = [k] :=
    Text.isLowerCase_of_not_mem (hdisjoint (List.mem_map_of_mem hb))
  rw [hlower, List.mem_singleton] at hd
  exact hd ▸ hslot

/-- A capital in a keymap is never found, not even when it is held itself. -/
theorem capital_key_is_not_found :
    let keymap : Keymap := [('K', 10)]
    (keymap.heldKeys "K").get 10 = false ∧
      ∃ c ∈ "K".toList, ∃ k, keymap.slot? k = some 10 ∧ Text.EqIgnoringCase c k := by
  refine ⟨by decide +kernel, 'K', by decide, 'K', by decide +kernel, 'k', ?_, ?_⟩
  · decide +kernel
  · decide +kernel

end Chip8
