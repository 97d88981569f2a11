import Chip8.Proofs.SelfJump

/-!
# Addresses beyond the end of memory

The program counter, the index register and the return addresses are words, and a word names the
memory cell of its lower twelve bits. Two machines that differ in nothing but the upper bits of
these words stay that way, whatever they execute (`Machine.EqUpToAlias.run`). So no register, timer
or cell of memory and screen ever shows the upper bits.

An instruction reads memory through the cell of an address, moves an address by adding or
subtracting, or copies it to or from the stack. Each of these respects aliases, and
`State.EqUpToAlias.execute` puts them together, operation by operation.
-/

set_option autoImplicit false

namespace Chip8

namespace Memory

/-- Two addresses name the same cell. -/
def Alias (a b : UInt16) : Prop := a.toNat % memorySize = b.toNat % memorySize

instance (a b : UInt16) : Decidable (Alias a b) := Nat.decEq _ _

namespace Alias

variable {a b : UInt16}

theorem refl (a : UInt16) : Alias a a := Eq.refl _

theorem cell_eq (h : Alias a b) : cell a = cell b := Fin.ext h

/-- Words wrap around at a multiple of the memory size. -/
theorem add (h : Alias a b) (c : UInt16) : Alias (a + c) (b + c) := by
  unfold Alias memorySize at h ⊢
  rw [UInt16.toNat_add, UInt16.toNat_add]
  omega

theorem sub (h : Alias a b) (c : UInt16) : Alias (a - c) (b - c) := by
  have hc := c.toNat_lt
  unfold Alias memorySize at h ⊢
  rw [UInt16.toNat_sub, UInt16.toNat_sub]
  omega

theorem read_eq (h : Alias a b) (m : Memory) : m.read a = m.read b := congrArg m.get h.cell_eq

theorem write_eq (h : Alias a b) (m : Memory) (byte : UInt8) : m.write a byte = m.write b byte :=
  congrArg (m.set · byte) h.cell_eq

theorem readBytes_eq (h : Alias a b) (m : Memory) (n : Nat) : m.readBytes a n = m.readBytes b n :=
  List.map_congr_left fun _ _ => (h.add _).read_eq m

end Alias

end Memory

open Memory (Alias)

namespace State

/-- Two states differ at most in the upper bits of the program counter, of the index register and of
the words on the stack. -/
structure EqUpToAlias (s t : State) : Prop where
  v : s.v = t.v
  i : Alias s.i t.i
  pc : Alias s.pc t.pc
  sp : s.sp = t.sp
  delay : s.delay = t.delay
  sound : s.sound = t.sound
  memory : s.memory = t.memory
  stack : ∀ slot, Alias (s.stack.get slot) (t.stack.get slot)
  screen : s.screen = t.screen

namespace EqUpToAlias

variable {s t : State} (h : s.EqUpToAlias t)

include h

theorem reg_eq (r : Nibble) : s.reg r = t.reg r := congrArg (·.get r) h.v

theorem setReg (r : Nibble) (b : UInt8) : (s.setReg r b).EqUpToAlias (t.setReg r b) :=
  { h with v := congrArg (·.set r b) h.v }

theorem advance : s.advance.EqUpToAlias t.advance := { h with pc := h.pc.add 2 }

theorem skipIf (c : Bool) : (s.skipIf c).EqUpToAlias (t.skipIf c) := by
  cases c with
  | true => exact h.advance
  | false => exact h

theorem jumpTo (target : UInt16) : (s.jumpTo target).EqUpToAlias (t.jumpTo target) :=
  { h with pc := .refl _ }

theorem countDown (ticks : Nat) : (s.countDown ticks).EqUpToAlias (t.countDown ticks) :=
  { h with
    delay := congrArg (fun b : UInt8 => UInt8.ofNat (b.toNat - ticks)) h.delay
    sound := congrArg (fun b : UInt8 => UInt8.ofNat (b.toNat - ticks)) h.sound }

/-- A call copies the program counter to the stack, upper bits included. -/
theorem callTo (target : UInt16) : (s.callTo target).EqUpToAlias (t.callTo target) := by
  refine { h with pc := .refl _, sp := congrArg (· + 1) h.sp, stack := fun slot => ?_ }
  show Alias ((s.stack.set (Nibble.ofByte (s.sp + 1)) s.pc).get slot)
    ((t.stack.set (Nibble.ofByte (t.sp + 1)) t.pc).get slot)
  rw [h.sp, Cells.get_set, Cells.get_set]
  split
  · exact h.pc
  · exact h.stack slot

/-- A return copies it back. -/
theorem returnToCaller : s.returnToCaller.EqUpToAlias t.returnToCaller := by
  refine { h with pc := ?_, sp := congrArg (fun sp : UInt8 => if sp = 0 then 0 else sp - 1) h.sp }
  show Alias (s.stack.get (Nibble.ofByte s.sp)) (t.stack.get (Nibble.ofByte t.sp))
  rw [h.sp]
  exact h.stack _

theorem awaitKey (x : Nibble) (keys : HeldKeys) :
    (s.awaitKey x keys).EqUpToAlias (t.awaitKey x keys) := by
  unfold State.awaitKey
  split
  · exact h.setReg x _
  · exact { h with pc := h.pc.sub 2 }

theorem storeDigits (b : UInt8) : (s.storeDigits b).EqUpToAlias (t.storeDigits b) := by
  refine { h with memory := ?_ }
  unfold State.storeDigits
  rw [h.memory, h.i.write_eq, (h.i.add 1).write_eq, (h.i.add 2).write_eq]

theorem storeRegisters (x : Nibble) : (s.storeRegisters x).EqUpToAlias (t.storeRegisters x) := by
  have hwrite : (fun (m : Memory) (r : Nibble) => m.write (s.i + UInt16.ofNat r.val) (s.reg r)) =
      fun m r => m.write (t.i + UInt16.ofNat r.val) (t.reg r) := by
    funext m r
    rw [h.reg_eq, (h.i.add _).write_eq]
  refine { h with memory := ?_ }
  unfold State.storeRegisters
  rw [hwrite, h.memory]

theorem loadRegisters (x : Nibble) : (s.loadRegisters x).EqUpToAlias (t.loadRegisters x) := by
  have hread :
      (fun r : Nibble => if r ≤ x then s.memory.read (s.i + UInt16.ofNat r.val) else s.reg r) =
        fun r => if r ≤ x then t.memory.read (t.i + UInt16.ofNat r.val) else t.reg r := by
    funext r
    rw [h.memory, h.reg_eq, (h.i.add _).read_eq]
  unfold State.loadRegisters
  rw [hread]
  exact { h with v := rfl }

theorem plot (x y : Nibble) (dot : Nat × Nat) :
    (State.plot x y s dot).EqUpToAlias (State.plot x y t dot) := by
  have hcell : s.dotCell x y dot = t.dotCell x y dot := by
    rw [dotCell, dotCell, h.reg_eq, h.reg_eq]
  unfold State.plot
  dsimp only
  rw [hcell, h.screen, h.reg_eq]
  exact { h.setReg _ _ with screen := rfl }

theorem foldl_plot (x y : Nibble) (dots : List (Nat × Nat)) :
    (dots.foldl (State.plot x y) s).EqUpToAlias (dots.foldl (State.plot x y) t) := by
  induction dots generalizing s t with
  | nil => exact h
  | cons dot dots ih => exact ih (h.plot x y dot)

/-- The bytes of a sprite are read through the index register. -/
theorem drawSprite (x y : Nibble) (n : Nat) :
    (s.drawSprite x y (s.memory.readBytes s.i n)).EqUpToAlias
      (t.drawSprite x y (t.memory.readBytes t.i n)) := by
  rw [h.memory, h.i.readBytes_eq]
  exact (h.setReg flag 0).foldl_plot x y _

/-- An instruction does the same to both states. -/
theorem execute (inputs : Inputs) (instruction : Instruction) :
    (s.execute inputs instruction).EqUpToAlias (t.execute inputs instruction) := by
  obtain ⟨op, o⟩ := instruction
  have hx := h.reg_eq o.x
  have hy := h.reg_eq o.y
  unfold State.execute
  dsimp only
  cases op with
  | noop => exact h
  | clearScreen => exact { h with screen := rfl }
  | ret => exact h.returnToCaller
  | jump => exact h.jumpTo _
  | call => exact h.callTo _
  | jumpOffset =>
    dsimp only
    rw [h.reg_eq]
    exact h.jumpTo _
  | draw => exact h.drawSprite _ _ _
  | awaitKey => exact h.awaitKey _ _
  | loadIndex => exact { h with i := .refl _ }
  | storeRegisters => exact h.storeRegisters _
  | loadRegisters => exact h.loadRegisters _
  | skipIfByte | skipUnlessByte | skipIfSame | skipUnlessSame | skipIfHeld | skipUnlessHeld =>
    simp only [hx, hy]
    exact h.skipIf _
  | loadByte | addByte | copy | or | and | xor | random =>
    simp only [hx, hy]
    exact h.setReg _ _
  | add | subtract =>
    simp only [hx, hy]
    exact (h.setReg _ _).setReg _ _
  | shiftRight | shiftLeft | subtractFrom =>
    -- The registers are read again after the flag has been set.
    simp only [hx, hy, (h.setReg _ _).reg_eq]
    exact (h.setReg _ _).setReg _ _
  | readDelay =>
    dsimp only
    rw [h.delay]
    exact h.setReg _ _
  | writeDelay => exact { h with delay := hx }
  | writeSound => exact { h with sound := hx }
  | advanceIndex =>
    dsimp only
    rw [hx]
    exact { h with i := h.i.add _ }
  | loadGlyph =>
    dsimp only
    rw [hx]
    exact { h with i := .refl _ }
  | storeDigits =>
    dsimp only
    rw [hx]
    exact h.storeDigits _

end EqUpToAlias

end State

namespace Machine

/-- Two machines differ at most in the upper bits of the addresses that their states hold. What they
executed last does not count. -/
structure EqUpToAlias (a b : Machine) : Prop where
  state : a.state.EqUpToAlias b.state
  clock : a.clock = b.clock

namespace EqUpToAlias

variable {a b : Machine} (h : a.EqUpToAlias b)

include h

/-- Both program counters name the same cell, and so the same instruction. -/
theorem next_eq : a.next = b.next := by
  unfold next State.instructionAt State.wordAt
  rw [h.state.memory, b.state.memory.word_congr h.state.pc]

theorem readClock (now : Nat) (frozen : Bool) :
    (a.readClock now frozen).EqUpToAlias (b.readClock now frozen) := by
  have hclock : (a.readClock now frozen).clock = (b.readClock now frozen).clock := by
    cases frozen with
    | true => exact congrArg (fun c : TickClock => { c with lastReading := some now }) h.clock
    | false =>
      exact congrArg
        (fun c : TickClock => { c with lastReading := some now }.settle (c.elapsed now)) h.clock
  have hticks : a.ticksAt now frozen = b.ticksAt now frozen := by
    rw [ticksAt, ticksAt, h.clock]
  refine ⟨?_, hclock⟩
  rw [readClock_state, readClock_state, hticks]
  exact h.state.countDown _

theorem step (i : StepInputs) : (a.step i).EqUpToAlias (b.step i) := by
  have hread := h.readClock i.now i.frozen
  refine ⟨?_, hread.clock⟩
  unfold Machine.step executeNext
  dsimp only
  rw [hread.next_eq]
  exact (hread.state.execute i.toInputs _).advance

theorem run (is : List StepInputs) : (a.run is).EqUpToAlias (b.run is) := by
  induction is generalizing a b with
  | nil => exact h
  | cons i is ih => exact ih (h.step i)

theorem trace_eq (is : List StepInputs) : a.trace is = b.trace is := by
  induction is generalizing a b with
  | nil => rfl
  | cons i is ih => rw [trace, trace, ih (h.step i), step_last, step_last, h.next_eq]

end EqUpToAlias

end Machine

/-- The upper bits of addresses are never seen. Two machines that agree but for the upper bits of
program counter, index register and return addresses execute the same instructions on the same
inputs, and agree in this way after every step. -/
theorem eqUpToAlias_after_every_step {a b : Machine} (h : a.EqUpToAlias b)
    (is : List StepInputs) :
    (∀ k, (a.run (is.take k)).EqUpToAlias (b.run (is.take k))) ∧ a.trace is = b.trace is :=
  ⟨fun k => h.run (is.take k), h.trace_eq is⟩

/-- A subroutine that moves the index register across the end of memory and stores a register
there. -/
def acrossEnd : Machine :=
  { Machine.ofProgram [0x22, 0x04, 0x12, 0x02, 0xF2, 0x1E, 0xF0, 0x55, 0x00, 0xEE]
      (.unnamed 10) with
    state.v := .replicate 16 7
    state.i := 0x0FFA }

/-- The same machine at aliases of its addresses. -/
def acrossEndAlias : Machine :=
  { acrossEnd with
    state.pc := 0xF200
    state.i := 0x7FFA
    state.stack := .replicate 16 0xA000 }

theorem acrossEndAlias_agrees :
    let is : List StepInputs := List.replicate 4 ⟨⟨Keypad.none, 0⟩, 0, false⟩
    acrossEnd.EqUpToAlias acrossEndAlias ∧
      ((acrossEnd.run is).state.pc = 0x0202 ∧ (acrossEndAlias.run is).state.pc = 0xF202) ∧
      (∀ k, (acrossEnd.run (is.take k)).EqUpToAlias (acrossEndAlias.run (is.take k))) ∧
      acrossEnd.trace is = acrossEndAlias.trace is := by
  have hstack : ∀ slot,
      Alias (acrossEnd.state.stack.get slot) (acrossEndAlias.state.stack.get slot) := by
    decide
  have h : acrossEnd.EqUpToAlias acrossEndAlias :=
    ⟨⟨rfl, by decide, by decide, rfl, rfl, rfl, rfl, hstack, rfl⟩, rfl⟩
  refine ⟨h, ?_, eqUpToAlias_after_every_step h _⟩
  -- The return address keeps its upper bits.
  decide +kernel

end Chip8
