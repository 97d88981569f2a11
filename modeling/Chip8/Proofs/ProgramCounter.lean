import Chip8.Proofs.Footprint
import Chip8.Proofs.Run

/-!
# Where the program goes on

Operations set the program counter in three ways. Jumps, calls and returns set it two below their
target, tests move it past an instruction, and a wait without a key moves it back. The advance that
ends every step is the same for all of them. `State.successor` says where that leads, operation by
operation, and `Machine.pc_step` that a step leads there. The clock has no part in it.

In terms of the words of a program this is `pc_after_step`.
-/

set_option autoImplicit false

namespace Chip8

/-- The operations that move the program counter themselves. -/
def Opcode.branches : List Opcode :=
  [.jump, .call, .ret, .jumpOffset, .skipIfByte, .skipUnlessByte, .skipIfSame, .skipUnlessSame,
    .skipIfHeld, .skipUnlessHeld, .awaitKey]

namespace State

section

variable (s : State)

/-- The address of the instruction after the next one if a condition holds, and of the next one
otherwise. -/
def pastIf (c : Bool) : UInt16 := if c then s.pc + 4 else s.pc + 2

theorem toNat_pastIf (c : Bool) :
    (s.pastIf c).toNat = (s.pc.toNat + if c then 4 else 2) % 65536 := by
  cases c with
  | false => exact UInt16.toNat_add s.pc 2
  | true => exact UInt16.toNat_add s.pc 4

/-- Where the program goes on after an instruction. -/
def successor (keys : HeldKeys) (instruction : Instruction) : UInt16 :=
  let o := instruction.operand
  let vx := s.reg o.x
  let vy := s.reg o.y
  match instruction.opcode with
  | .jump | .call => o.addr
  | .jumpOffset => o.addr + (s.reg 0).toUInt16
  | .ret => s.stack.get s.slot + 2
  | .skipIfByte => s.pastIf (vx = o.byte)
  | .skipUnlessByte => s.pastIf (vx ≠ o.byte)
  | .skipIfSame => s.pastIf (vx = vy)
  | .skipUnlessSame => s.pastIf (vx ≠ vy)
  | .skipIfHeld => s.pastIf (keys.get (Nibble.ofByte vx))
  | .skipUnlessHeld => s.pastIf !(keys.get (Nibble.ofByte vx))
  | .awaitKey => if Keypad.heldSlots keys = [] then s.pc else s.pc + 2
  | _ => s.pc + 2

theorem pc_advance_skipIf (c : Bool) : (s.skipIf c).advance.pc = s.pastIf c := by
  cases c with
  | false => rfl
  | true =>
    show s.pc + 2 + 2 = s.pc + 4
    rw [UInt16.add_assoc]
    rfl

/-- The wait goes back by as much as the step advances. -/
theorem pc_advance_awaitKey (x : Nibble) (keys : HeldKeys) :
    (s.awaitKey x keys).advance.pc =
      if Keypad.heldSlots keys = [] then s.pc else s.pc + 2 := by
  unfold awaitKey Keypad.heldValues
  cases Keypad.heldSlots keys with
  | nil => exact UInt16.sub_add_cancel s.pc 2
  | cons slot slots => rfl

theorem pc_advance_execute (inputs : Inputs) (instruction : Instruction) :
    (s.execute inputs instruction).advance.pc = s.successor inputs.keys instruction := by
  obtain ⟨op, o⟩ := instruction
  cases op with
  | jump | call => exact UInt16.sub_add_cancel o.addr 2
  | jumpOffset => exact UInt16.sub_add_cancel (o.addr + (s.reg 0).toUInt16) 2
  | skipIfByte | skipUnlessByte | skipIfSame | skipUnlessSame | skipIfHeld | skipUnlessHeld =>
    exact s.pc_advance_skipIf _
  | awaitKey => exact s.pc_advance_awaitKey o.x inputs.keys
  | draw =>
    show (s.drawSprite o.x o.y (s.memory.readBytes s.i o.n.val)).advance.pc = s.pc + 2
    rw [drawSprite_eq]
    rfl
  | _ => rfl

theorem successor_of_not_mem_branches (keys : HeldKeys) {instruction : Instruction}
    (h : instruction.opcode ∉ Opcode.branches) :
    s.successor keys instruction = s.pc + 2 := by
  obtain ⟨op, o⟩ := instruction
  dsimp only at h
  cases op with
  | jump | call | ret | jumpOffset | skipIfByte | skipUnlessByte | skipIfSame | skipUnlessSame
  | skipIfHeld | skipUnlessHeld | awaitKey => exact absurd (by decide) h
  | _ => rfl

end

end State

/-- After a step the program counter is at the successor. -/
theorem Machine.pc_step (m : Machine) (i : StepInputs) :
    (m.step i).state.pc = m.state.successor i.keys m.next := by
  rw [step_state, State.pc_advance_execute]
  rfl

open Instruction (HasForm)

/-- Where a step leaves the program counter, for any word at any address, with any keys and at any
time. It is `nnn` for `1nnn` and `2nnn`, `nnn` plus the register 0 for `Bnnn`, two after the stack
slot of the pointer for `0?EE`, and where it was for `Fx0A` while no key is held. The tests `3xkk`,
`4xkk`, `5xy0`, `9xy0`, `Ex9E` and `ExA1` move it on by four if they succeed and by two if not, and
every other word, known or not, moves it on by two. It wraps around after the largest word. -/
theorem pc_after_step (m : Machine) (i : StepInputs) :
    let s := m.state
    let p := s.pc.toNat
    let w := s.wordAt s.pc
    let vx := s.reg (Operand.ofWord w).x
    let vy := s.reg (Operand.ofWord w).y
    let key := i.keys.get (Nibble.ofByte vx)
    let next := (m.step i).state.pc.toNat
    (HasForm [⟨0x1, none, none⟩] w → next = w.toNat % 4096) ∧
      (HasForm [⟨0x2, none, none⟩] w → next = w.toNat % 4096) ∧
      (HasForm [⟨0xB, none, none⟩] w → next = w.toNat % 4096 + (s.reg 0).toNat) ∧
      (HasForm [⟨0x0, some 0xE, some 0xE⟩] w →
        next = ((s.stack.get (Nibble.ofNat s.sp.toNat)).toNat + 2) % 65536) ∧
      (HasForm [⟨0xF, some 0x0, some 0xA⟩] w →
        next = if ∀ slot, i.keys.get slot = false then p else (p + 2) % 65536) ∧
      (HasForm [⟨0x3, none, none⟩] w →
        next = (p + if vx.toNat = w.toNat % 256 then 4 else 2) % 65536) ∧
      (HasForm [⟨0x4, none, none⟩] w →
        next = (p + if vx.toNat = w.toNat % 256 then 2 else 4) % 65536) ∧
      (HasForm [⟨0x5, none, some 0x0⟩] w → next = (p + if vx = vy then 4 else 2) % 65536) ∧
      (HasForm [⟨0x9, none, some 0x0⟩] w → next = (p + if vx = vy then 2 else 4) % 65536) ∧
      (HasForm [⟨0xE, some 0x9, some 0xE⟩] w → next = (p + if key then 4 else 2) % 65536) ∧
      (HasForm [⟨0xE, some 0xA, some 0x1⟩] w → next = (p + if key then 2 else 4) % 65536) ∧
      (¬ HasForm [⟨0x1, none, none⟩, ⟨0x2, none, none⟩, ⟨0x0, some 0xE, some 0xE⟩,
          ⟨0xB, none, none⟩, ⟨0x3, none, none⟩, ⟨0x4, none, none⟩, ⟨0x5, none, some 0x0⟩,
          ⟨0x9, none, some 0x0⟩, ⟨0xE, some 0x9, some 0xE⟩, ⟨0xE, some 0xA, some 0x1⟩,
          ⟨0xF, some 0x0, some 0xA⟩] w →
        next = (p + 2) % 65536) := by
  intro s p w vx vy key next
  have hnext : next = (s.successor i.keys (.ofWord w)).toNat :=
    congrArg UInt16.toNat (m.pc_step i)
  have hbyte : s.reg (Operand.ofWord w).x = (Operand.ofWord w).byte ↔
      vx.toNat = w.toNat % 256 := by
    rw [← UInt8.toNat_inj, Operand.toNat_byte_ofWord]
  have htest : ∀ op f c, op.form? = some f → HasForm [f] w →
      s.successor i.keys ⟨op, .ofWord w⟩ = s.pastIf c →
      next = (p + if c then 4 else 2) % 65536 := by
    intro op f c hop hform hpast
    rw [hnext, Instruction.ofWord_eq_of_hasForm op hop hform, hpast, s.toNat_pastIf]
  refine ⟨fun h => ?_, fun h => ?_, fun h => ?_, fun h => ?_, fun h => ?_, fun h => ?_, fun h => ?_,
    fun h => ?_, fun h => ?_, fun h => ?_, fun h => ?_, fun h => ?_⟩
  · rw [hnext, Instruction.ofWord_eq_of_hasForm .jump rfl h]
    exact Operand.toNat_addr_ofWord w
  · rw [hnext, Instruction.ofWord_eq_of_hasForm .call rfl h]
    exact Operand.toNat_addr_ofWord w
  · have hv := (s.reg 0).toNat_lt
    rw [hnext, Instruction.ofWord_eq_of_hasForm .jumpOffset rfl h]
    show ((Operand.ofWord w).addr + (s.reg 0).toUInt16).toNat = _
    rw [UInt16.toNat_add, Operand.toNat_addr_ofWord, UInt8.toNat_toUInt16]
    omega
  · rw [hnext, Instruction.ofWord_eq_of_hasForm .ret rfl h]
    exact UInt16.toNat_add _ _
  · rw [hnext, Instruction.ofWord_eq_of_hasForm .awaitKey rfl h]
    simp only [← Keypad.heldSlots_eq_nil_iff]
    show (if Keypad.heldSlots i.keys = [] then s.pc else s.pc + 2).toNat = _
    split
    · rfl
    · exact UInt16.toNat_add _ _
  · have hnext := htest .skipIfByte _ _ rfl h rfl
    simpa only [decide_eq_true_eq, hbyte] using hnext
  · have hnext := htest .skipUnlessByte _ _ rfl h rfl
    simpa only [decide_eq_true_eq, ne_eq, ite_not, hbyte] using hnext
  · have hnext := htest .skipIfSame _ _ rfl h rfl
    simpa only [decide_eq_true_eq] using hnext
  · have hnext := htest .skipUnlessSame _ _ rfl h rfl
    simpa only [decide_eq_true_eq, ne_eq, ite_not] using hnext
  · exact htest .skipIfHeld _ _ rfl h rfl
  · have hnext := htest .skipUnlessHeld _ _ rfl h rfl
    simpa only [Bool.not_eq_true', ← Bool.not_eq_true, ite_not] using hnext
  · rw [hnext, s.successor_of_not_mem_branches]
    · exact UInt16.toNat_add _ _
    · exact fun hmem => h ((Instruction.hasForm_filterMap_iff (by decide)).2 hmem)

end Chip8
