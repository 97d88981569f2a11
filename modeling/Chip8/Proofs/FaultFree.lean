import Chip8.Proofs.GuardedExecution
import Chip8.Proofs.Tape
import Chip8.Proofs.TimerDecay

/-!
# No step breaks a guard

The guarded step of a machine (`Machine.guardedStep`) lets time pass in sums of 128 bits, decodes
the word at the program counter into an operation and twelve bare bits, and executes it with guarded
accesses. A guarded cycle counts such steps in 32 bits.

Neither breaks a guard, whatever the machine holds, and each comes to what it comes to without
guards (`steps_break_no_guard`). What is pending of a tick is less than a second, so that it and
sixty times the longest span fit 128 bits.
-/

set_option autoImplicit false

namespace Chip8

open Guarded Operand

/-! ## Decoding -/

namespace Instruction

/-- An operation and the bits of its operand, as a word holds them. -/
def bare (w : UInt16) : Opcode × UInt16 :=
  let op := (ofWord w).opcode
  (op, if op = .noop then 0 else w &&& 0x0FFF)

theorem ofWord_and_mask (w : UInt16) : Operand.ofWord (w &&& 0x0FFF) = .ofWord w := by
  have hmask : (w &&& 0x0FFF).toNat = w.toNat % 2 ^ 12 := toNat_and_mask w _ 12 rfl
  simp only [Operand.ofWord, Nibble.ofNat, hmask, Operand.mk.injEq, Fin.ext_iff]
  omega

/-- A word without an operation has a zero operand. -/
theorem ofWord_eq_noop {w : UInt16} (h : (ofWord w).opcode = .noop) : ofWord w = noop := by
  revert h
  rw [ofWord]
  cases hop : Opcode.ofNibbles? (.ofNat (w.toNat / 4096)) (Operand.ofWord w).y (Operand.ofWord w).n
  with
  | none => exact fun _ => rfl
  | some op =>
    rintro rfl
    obtain ⟨f, hform, -⟩ := Opcode.ofNibbles?_eq_some_iff.1 hop
    simp [Opcode.form?] at hform

/-- The bits of an operand hold all of it. -/
theorem mk_bare (w : UInt16) : ⟨(bare w).1, .ofWord (bare w).2⟩ = ofWord w := by
  by_cases hop : (ofWord w).opcode = .noop
  · have hbits : (bare w).2 = 0 := if_pos hop
    rw [ofWord_eq_noop hop, hbits]
    show (⟨(ofWord w).opcode, _⟩ : Instruction) = _
    rw [hop]
    rfl
  · have hbits : (bare w).2 = w &&& 0x0FFF := if_neg hop
    rw [hbits, ofWord_and_mask, ofWord_eq_of_opcode hop rfl]
    rfl

end Instruction

/-! ## Steps -/

/-- The longest span of time: as many seconds as 64 bits count, less a nanosecond. -/
def longestSpan : Nat := 2 ^ 64 * nanosPerSecond - 1

namespace Machine

variable (m : Machine)

/-- Lets a span of time pass for the timers, counted in 128 bits. More ticks than a byte holds are
not counted. -/
def guardedDecay (span : Nat) : Guarded Machine := do
  let nanos ← fit 128 span
  let units ← fit 128 (nanos * timerRate)
  let due ← fit 128 (m.clock.pending.val + units)
  return { m with
    state := m.state.countDown (min (due / nanosPerSecond) 255)
    clock.pending := ⟨due % nanosPerSecond, Nat.mod_lt _ (by decide)⟩ }

/-- Executes the word at the program counter. -/
def guardedExecuteNext (inputs : Inputs) : Guarded Machine := do
  let word ← m.state.guardedWord m.state.pc
  let (op, bits) := Instruction.bare word
  let state ← m.state.guardedExecute inputs op bits
  return { m with state := state.advance, last := ⟨op, .ofWord bits⟩, lastPc := m.state.pc }

/-- One step. -/
def guardedStep (i : StepInputs) : Guarded Machine := do
  let noted := { m with clock.lastReading := some i.now }
  let ready ← if i.frozen then pure noted else noted.guardedDecay (m.clock.elapsed i.now)
  ready.guardedExecuteNext i.toInputs

theorem guardedDecay_eq {span : Nat} (h : span ≤ longestSpan) :
    m.guardedDecay span = pure (m.decay span) := by
  have hpending : m.clock.pending.val < 1000000000 := m.clock.pending.isLt
  have hlongest : longestSpan = 2 ^ 64 * 1000000000 - 1 := rfl
  have hspan : span < 2 ^ 128 := by omega
  have hunits : span * timerRate < 2 ^ 128 := by
    rw [timerRate]
    omega
  have hdue : m.clock.pending.val + span * timerRate < 2 ^ 128 := by
    rw [timerRate]
    omega
  rw [guardedDecay, fit_of_lt hspan, pure_bind, fit_of_lt hunits, pure_bind, fit_of_lt hdue,
    pure_bind, State.countDown_min]
  rfl

theorem guardedExecuteNext_eq (inputs : Inputs) :
    m.guardedExecuteNext inputs = pure (m.executeNext inputs) := by
  simp only [guardedExecuteNext, State.guardedWord_eq, pure_bind, State.guardedExecute_eq,
    Instruction.mk_bare]
  rfl

theorem guardedStep_eq_step {i : StepInputs} (h : m.clock.elapsed i.now ≤ longestSpan) :
    m.guardedStep i = pure (m.step i) := by
  rw [guardedStep, step, readClock]
  cases hfrozen : i.frozen with
  | true => exact guardedExecuteNext_eq _ _
  | false =>
    simp only [Bool.false_eq_true, if_false, guardedDecay_eq _ h, pure_bind]
    exact guardedExecuteNext_eq _ _

end Machine

/-! ## Cycles -/

/-- The time since the reading before, if there is one. -/
theorem TickClock.elapsed_eq_elim (c : TickClock) (now : Nat) :
    c.elapsed now = c.lastReading.elim 0 fun reading => now - reading := by
  rw [elapsed]
  cases c.lastReading with
  | none => rfl
  | some reading => rfl

/-- Whether the readings of a sequence of steps are never more than the longest span after the
reading before. -/
def Timely : Option Nat → List StepInputs → Prop
  | _, [] => True
  | before, i :: is =>
      (before.elim 0 fun reading => i.now - reading) ≤ longestSpan ∧ Timely (some i.now) is

instance decidableTimely : (before : Option Nat) → (is : List StepInputs) →
    Decidable (Timely before is)
  | _, [] => isTrue trivial
  | _, i :: is =>
      have := decidableTimely (some i.now) is
      inferInstanceAs (Decidable (_ ∧ _))

namespace Machine

section

variable {m : Type → Type} [Monad m] [Host m]

/-- A guarded step at the present time. -/
def guardedStepNow (machine : Machine) (keys : HeldKeys) (frozen : Bool) :
    ExceptT Violation m Machine := do
  let now ← (Host.now : m Nat)
  let random ← (Host.randomByte : m UInt8)
  ExceptT.mk (return machine.guardedStep ⟨⟨keys, random⟩, now, frozen⟩)

/-- Guarded steps, of which the counter has 32 bits and begins at `k`. -/
def guardedCycle (keys : HeldKeys) (frozen : Bool) :
    Nat → Nat → Machine → ExceptT Violation m Machine
  | _, 0, machine => return machine
  | k, n + 1, machine => do
      let machine ← machine.guardedStepNow keys frozen
      let k ← ExceptT.mk (return fit 32 (k + 1))
      guardedCycle keys frozen k n machine

end

variable {σ : Type} [Host (StateM σ)]

/-- No cycle breaks a guard. -/
theorem guardedCycle_eq_cycle (machine : Machine) (keys : HeldKeys) (frozen : Bool) {k n : Nat}
    (hcount : k + n < 2 ^ 32) (host : σ)
    (htime : Timely machine.clock.lastReading
      ((stepInputs keys frozen n : StateM σ _).run host).1) :
    (machine.guardedCycle keys frozen k n : ExceptT Violation (StateM σ) _).run.run host =
      let done := (machine.cycle keys frozen n : StateM σ _).run host
      (.ok done.1, done.2) := by
  induction n generalizing machine k host with
  | zero => rfl
  | succ n ih =>
    obtain ⟨hgap, hrest⟩ := htime
    have hcounter : k + 1 < 2 ^ 32 := by omega
    -- What the first step takes from the host, and the host after it.
    let reading := (Host.now : StateM σ _).run host
    let random := (Host.randomByte : StateM σ _).run reading.2
    let i : StepInputs := ⟨⟨keys, random.1⟩, reading.1, frozen⟩
    have hstep : machine.guardedStep i = pure (machine.step i) := by
      refine machine.guardedStep_eq_step ?_
      rw [TickClock.elapsed_eq_elim]
      exact hgap
    have hcycle := ih (machine.step i) (by omega : k + 1 + n < 2 ^ 32) random.2 (by
      rw [step_lastReading]
      exact hrest)
    have hfirst :
        (machine.guardedCycle keys frozen k (n + 1) : ExceptT Violation (StateM σ) _).run.run host =
          (ExceptT.mk (return machine.guardedStep i) >>= fun next =>
            ExceptT.mk (return fit 32 (k + 1)) >>= fun k =>
              (next.guardedCycle keys frozen k n : ExceptT Violation (StateM σ) _)).run.run
            random.2 := rfl
    rw [hfirst, hstep, fit_of_lt hcounter]
    exact hcycle

end Machine

/-! ## The theorem -/

/-- No guard is ever broken. For any machine, with any registers, pointers, memory, stack and
screen, a span of time up to the longest one passes for the timers, a step with any keys, byte and
freeze completes however long the clock says that the latest step is ago, and a cycle completes of
any number of steps that 32 bits count. All come to what they come to without guards. -/
theorem steps_break_no_guard {σ : Type} [Host (StateM σ)] (machine : Machine) :
    (∀ span ≤ longestSpan, machine.guardedDecay span = .ok (machine.decay span)) ∧
      (∀ i : StepInputs, machine.clock.elapsed i.now ≤ longestSpan →
        machine.guardedStep i = .ok (machine.step i)) ∧
      ∀ (keys : HeldKeys) (frozen : Bool) (n : UInt32) (host : σ),
        Timely machine.clock.lastReading
            ((stepInputs keys frozen n.toNat : StateM σ _).run host).1 →
          (machine.guardedCycle keys frozen 0 n.toNat : ExceptT Violation (StateM σ) _).run.run
              host =
            let done := (machine.cycle keys frozen n.toNat : StateM σ _).run host
            (.ok done.1, done.2) := by
  refine ⟨fun span h => machine.guardedDecay_eq h, fun i h => machine.guardedStep_eq_step h, ?_⟩
  intro keys frozen n host htime
  have hcount : 0 + n.toNat < 2 ^ 32 := by
    rw [Nat.zero_add]
    exact n.toNat_lt
  exact machine.guardedCycle_eq_cycle keys frozen hcount host htime

/-- A machine with the highest values everywhere. The word at its program counter, half of it at
the end of memory and half at the start, draws fifteen lines at the corner that two registers name,
one of them the flag. -/
def Machine.extreme : Machine where
  state :=
    { v := .replicate 16 0xFF
      i := 0xFFFF
      pc := 0xFFFF
      sp := 0xFF
      delay := 0xFF
      sound := 0xFF
      memory := .replicate memorySize 0xDF
      stack := .replicate 16 0xFFFF
      screen := .replicate screenSize 0xFF }
  last := .noop
  lastPc := 0xFFFF
  clock := ⟨some 0, ⟨nanosPerSecond - 1, by decide⟩⟩
  rom := .unnamed 0

theorem Machine.extreme_next : extreme.next = ⟨.draw, ⟨15, 13, 15⟩⟩ := by
  have hbyte : ∀ a, extreme.state.memory.read a = 0xDF := fun a => Cells.get_replicate 0xDF _
  rw [next, State.instructionAt, State.wordAt, Memory.word, hbyte, hbyte]
  decide

/-- Two steps of it, each after the longest span of time. -/
theorem extreme_machine_steps :
    let keys : HeldKeys := .replicate 16 true
    let host : Simulated := ⟨0, longestSpan, [], 0, 0⟩
    let i : StepInputs := ⟨⟨keys, 0xFF⟩, longestSpan, false⟩
    Machine.extreme.next = ⟨.draw, ⟨15, 13, 15⟩⟩ ∧
    Machine.extreme.guardedDecay longestSpan = .ok (Machine.extreme.decay longestSpan) ∧
      Machine.extreme.clock.elapsed i.now = longestSpan ∧
      Machine.extreme.guardedStep i = .ok (Machine.extreme.step i) ∧
      Timely (some 0) ((stepInputs keys false 2 : StateM Simulated _).run host).1 ∧
      ((Machine.extreme.guardedCycle keys false 0 2 :
        ExceptT Violation (StateM Simulated) _).run.run host).1 =
          .ok ((Machine.extreme.cycle keys false 2 : StateM Simulated _).run host).1 := by
  intro keys host i
  have htime : Timely (some 0) ((stepInputs keys false 2 : StateM Simulated _).run host).1 := by
    decide
  obtain ⟨hdecay, hstep, hcycle⟩ := steps_break_no_guard (σ := Simulated) Machine.extreme
  refine ⟨Machine.extreme_next, hdecay _ (Nat.le_refl _), rfl, hstep i (Nat.le_refl _), htime, ?_⟩
  exact congrArg Prod.fst (hcycle keys false 2 host htime)

end Chip8
