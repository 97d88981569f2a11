import Mathlib.Data.Fin.Tuple.Basic
import Chip8.Execute
import Chip8.Proofs.Decoding

/-!
# Waiting for a key and testing for it

A wait stores the value of the first held key, the digit printed on it (`State.awaitKey_of_first`).
A test looks at the slot with the number in its register. A program that waits for a key and then
tests for the value that it got looks at another slot, unless the key's value is the number of its
slot (`tests_agree_with_wait_iff`).
-/

set_option autoImplicit false

namespace Chip8

namespace Keypad

/-- A slot is the first one held. -/
def First (keys : HeldKeys) (slot : Nibble) : Prop :=
  keys.get slot = true ∧ ∀ q < slot, keys.get q = false

instance (keys : HeldKeys) (slot : Nibble) : Decidable (First keys slot) :=
  inferInstanceAs (Decidable (_ ∧ _))

theorem exists_first {keys : HeldKeys} (h : ∃ q, keys.get q = true) :
    ∃ slot, First keys slot :=
  ⟨Fin.find _ h, Fin.find_spec h, fun _ hq => Bool.eq_false_iff.2 (Fin.find_min h hq)⟩

theorem head?_heldValues_of_first {keys : HeldKeys} {slot : Nibble} (h : First keys slot) :
    (heldValues keys).head? = some (layout.get slot) := by
  have hslot : (heldSlots keys).head? = some slot := by
    rw [heldSlots, List.head?_filter, List.find?_eq_some_iff_getElem]
    refine ⟨h.1, slot.val, by simp, by simp, fun j hj => ?_⟩
    rw [List.getElem_finRange, Bool.not_eq_true', h.2 _ hj]
  rw [heldValues, List.head?_map, hslot]
  rfl

/-- The slot with the number that is the value of the key in a slot. -/
def valueSlot (slot : Nibble) : Nibble := .ofByte (layout.get slot)

theorem valueSlot_eq_iff {slot : Nibble} :
    valueSlot slot = slot ↔ slot ∈ [0x4, 0x5, 0x6, 0xF] := by
  revert slot
  decide

theorem valueSlot_lt_iff {slot : Nibble} :
    valueSlot slot < slot ↔ slot ∈ [0x8, 0x9, 0xA, 0xC, 0xD, 0xE] := by
  revert slot
  decide

/-- Two slots held. -/
def pair (p q : Nibble) : HeldKeys := .ofFn fun slot => slot = p ∨ slot = q

theorem get_pair {p q slot : Nibble} : (pair p q).get slot = true ↔ slot = p ∨ slot = q := by
  simp [pair]

theorem first_pair {p q : Nibble} (h : p ≤ q) : First (pair p q) p := by
  refine ⟨get_pair.2 (.inl rfl), fun slot hslot => ?_⟩
  rw [Bool.eq_false_iff, Ne, get_pair]
  rintro (rfl | rfl)
  · exact hslot.false
  · exact hslot.not_ge h

end Keypad

namespace State

section

variable (s : State) (x : Nibble) {keys : HeldKeys} {slot : Nibble}

theorem awaitKey_of_first (h : Keypad.First keys slot) :
    s.awaitKey x keys = s.setReg x (Keypad.layout.get slot) := by
  rw [awaitKey, Keypad.head?_heldValues_of_first h]

theorem execute_awaitKey_of_first (h : Keypad.First keys slot) (random : UInt8) :
    s.execute ⟨keys, random⟩
        (Instruction.ofWord (wordOfBytes (byteOfNibbles 0xF x) (byteOfNibbles 0x0 0xA))) =
      s.setReg x (Keypad.layout.get slot) := by
  rw [Instruction.ofWord_of_fits .awaitKey rfl rfl]
  exact s.awaitKey_of_first x h

theorem execute_skipIfHeld (inputs : Inputs) :
    s.execute inputs
        (Instruction.ofWord (wordOfBytes (byteOfNibbles 0xE x) (byteOfNibbles 0x9 0xE))) =
      s.skipIf (inputs.keys.get (Nibble.ofByte (s.reg x))) := by
  rw [Instruction.ofWord_of_fits .skipIfHeld rfl rfl]
  rfl

theorem execute_skipUnlessHeld (inputs : Inputs) :
    s.execute inputs
        (Instruction.ofWord (wordOfBytes (byteOfNibbles 0xE x) (byteOfNibbles 0xA 0x1))) =
      s.skipIf !(inputs.keys.get (Nibble.ofByte (s.reg x))) := by
  rw [Instruction.ofWord_of_fits .skipUnlessHeld rfl rfl]
  rfl

theorem advance_ne : s.advance ≠ s := by
  intro h
  have hlt := s.pc.toNat_lt
  have hpc : (s.pc + 2).toNat = s.pc.toNat := congrArg (fun t => t.pc.toNat) h
  rw [UInt16.toNat_add] at hpc
  change (s.pc.toNat + 2) % 65536 = s.pc.toNat at hpc
  omega

/-- After `Fx0A`, with the same keys held, `Ex9E` skips and `ExA1` does not, for any random bytes. -/
def TestsAgree (keys : HeldKeys) : Prop :=
  ∀ random random' : UInt8,
    let t := s.execute ⟨keys, random⟩
      (.ofWord (wordOfBytes (byteOfNibbles 0xF x) (byteOfNibbles 0x0 0xA)))
    t.execute ⟨keys, random'⟩
        (.ofWord (wordOfBytes (byteOfNibbles 0xE x) (byteOfNibbles 0x9 0xE))) = t.advance ∧
      t.execute ⟨keys, random'⟩
        (.ofWord (wordOfBytes (byteOfNibbles 0xE x) (byteOfNibbles 0xA 0x1))) = t

/-- The tests agree with the wait if and only if the slot that they look at is held. -/
theorem testsAgree_iff_of_first (h : Keypad.First keys slot) :
    s.TestsAgree x keys ↔ keys.get (Keypad.valueSlot slot) = true := by
  have hslot : Nibble.ofByte ((s.setReg x (Keypad.layout.get slot)).reg x) =
      Keypad.valueSlot slot := by
    rw [reg_setReg, if_pos rfl, Keypad.valueSlot]
  simp only [TestsAgree, s.execute_awaitKey_of_first x h, execute_skipIfHeld,
    execute_skipUnlessHeld, hslot]
  cases keys.get (Keypad.valueSlot slot) with
  | false =>
    refine ⟨fun hagree => ?_, fun hheld => absurd hheld (by decide)⟩
    exact absurd (hagree 0 0).1.symm (advance_ne _)
  | true => exact ⟨fun _ => rfl, fun _ _ _ => ⟨rfl, rfl⟩⟩

end

end State

/-- Where a key test agrees with the wait before it. With some key held, the wait stores the value
of the first held one, and the tests agree exactly when the slot with that number is held as well.
They agree whatever other keys are held exactly when the first held slot is 4, 5, 6 or 15, whose
keys are numbered like their slots. They never agree exactly when it is 8, 9, 10, 12, 13 or 14: the
slot with the number of the key is a lower one. -/
theorem tests_agree_with_wait_iff (s : State) (x : Nibble) :
    (∀ keys, (∃ q, keys.get q = true) → ∃ slot, Keypad.First keys slot ∧
        (∀ random, s.execute ⟨keys, random⟩
            (.ofWord (wordOfBytes (byteOfNibbles 0xF x) (byteOfNibbles 0x0 0xA))) =
          s.setReg x (Keypad.layout.get slot)) ∧
        (s.TestsAgree x keys ↔ keys.get (Nibble.ofByte (Keypad.layout.get slot)) = true)) ∧
      (∀ slot, (∀ keys, Keypad.First keys slot → s.TestsAgree x keys) ↔
        slot ∈ [0x4, 0x5, 0x6, 0xF]) ∧
      ∀ slot, (∀ keys, Keypad.First keys slot → ¬ s.TestsAgree x keys) ↔
        slot ∈ [0x8, 0x9, 0xA, 0xC, 0xD, 0xE] := by
  refine ⟨fun keys hheld => ?_, fun slot => ?_, fun slot => ?_⟩
  · obtain ⟨slot, hfirst⟩ := Keypad.exists_first hheld
    exact ⟨slot, hfirst, s.execute_awaitKey_of_first x hfirst, s.testsAgree_iff_of_first x hfirst⟩
  · rw [← Keypad.valueSlot_eq_iff]
    constructor
    · intro hagree
      -- With no other key held, the slot that the tests look at has to be the same one.
      have hfirst := Keypad.first_pair (le_refl slot)
      have hget := (s.testsAgree_iff_of_first x hfirst).1 (hagree _ hfirst)
      exact or_self_iff.1 (Keypad.get_pair.1 hget)
    · intro hslot keys hfirst
      rw [s.testsAgree_iff_of_first x hfirst, hslot]
      exact hfirst.1
  · rw [← Keypad.valueSlot_lt_iff]
    constructor
    · intro hdisagree
      by_contra hle
      have hfirst := Keypad.first_pair (not_lt.1 hle)
      exact hdisagree _ hfirst
        ((s.testsAgree_iff_of_first x hfirst).2 (Keypad.get_pair.2 (.inr rfl)))
    · intro hlt keys hfirst
      rw [s.testsAgree_iff_of_first x hfirst, hfirst.2 _ hlt]
      exact Bool.false_ne_true

/-- The key 4 is in the slot 4, so its tests agree with the wait, also with the key F held. -/
theorem key_four_passes_its_test :
    Keypad.First (Keypad.ofSlots [4, 15]) 4 ∧
      State.initial.TestsAgree 0 (Keypad.ofSlots [4, 15]) := by
  have hfirst : Keypad.First (Keypad.ofSlots [4, 15]) 4 := by decide
  exact ⟨hfirst, ((tests_agree_with_wait_iff State.initial 0).2.1 4).2 (by decide) _ hfirst⟩

/-- The key 1 is in the slot 0. Held alone it ends the wait, but the test for the value 1 looks at
the slot 1. -/
theorem key_one_fails_its_test :
    (∃ slot, (Keypad.ofSlots [0]).get slot = true) ∧
      ¬ State.initial.TestsAgree 0 (Keypad.ofSlots [0]) := by
  have hfirst : Keypad.First (Keypad.ofSlots [0]) 0 := by decide
  refine ⟨⟨0, hfirst.1⟩, ?_⟩
  rw [State.initial.testsAgree_iff_of_first 0 hfirst]
  decide

end Chip8
