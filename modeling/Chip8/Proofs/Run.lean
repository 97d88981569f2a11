import Chip8.Machine

/-!
# Runs of steps

What a step does to a machine, in one equation for its state (`Machine.step_state`), and the machine
after a sequence of steps (`Machine.run`) with the instructions executed on the way
(`Machine.trace`). The clock bears on a step only through the ticks by which the timers fall before
the instruction is executed.
-/

set_option autoImplicit false

namespace Chip8

/-- The part of a list up to one place, and from there up to a later place. -/
theorem take_append_drop_take {α : Type} (l : List α) {a b : Nat} (h : a ≤ b) :
    l.take a ++ (l.take b).drop a = l.take b := by
  have htake : (l.take b).take a = l.take a := by
    rw [List.take_take, Nat.min_eq_left h]
  rw [← htake, List.take_append_drop]

namespace Machine

section

variable (m : Machine)

/-- The ticks by which a reading of the clock lets the timers fall. -/
def ticksAt (now : Nat) (frozen : Bool) : Nat :=
  if frozen then 0 else m.clock.ticks (m.clock.elapsed now)

theorem readClock_state (now : Nat) (frozen : Bool) :
    (m.readClock now frozen).state = m.state.countDown (m.ticksAt now frozen) := by
  cases frozen with
  | true => exact m.state.countDown_zero.symm
  | false => rfl

theorem readClock_next (now : Nat) (frozen : Bool) : (m.readClock now frozen).next = m.next := by
  rw [next, readClock_state]
  rfl

/-- The state after a step: the timers fall, the instruction at the program counter is executed,
and the program counter moves on. -/
theorem step_state (i : StepInputs) :
    (m.step i).state =
      ((m.state.countDown (m.ticksAt i.now i.frozen)).execute i.toInputs m.next).advance := by
  rw [step, executeNext, readClock_next, readClock_state]

@[simp]
theorem step_last (i : StepInputs) : (m.step i).last = m.next := m.readClock_next i.now i.frozen

@[simp]
theorem step_lastPc (i : StepInputs) : (m.step i).lastPc = m.state.pc := by
  rw [step, executeNext, readClock_state]
  rfl

@[simp]
theorem step_lastReading (i : StepInputs) : (m.step i).clock.lastReading = some i.now := by
  rw [step, executeNext, readClock]
  split <;> rfl

end

/-- The machine after a sequence of steps. -/
def run (m : Machine) (is : List StepInputs) : Machine := is.foldl step m

@[simp]
theorem run_nil (m : Machine) : m.run [] = m := rfl

@[simp]
theorem run_cons (m : Machine) (i : StepInputs) (is : List StepInputs) :
    m.run (i :: is) = (m.step i).run is := rfl

theorem run_append (m : Machine) (is js : List StepInputs) :
    m.run (is ++ js) = (m.run is).run js := List.foldl_append

/-- The instructions that a sequence of steps executes. -/
def trace : Machine → List StepInputs → List Instruction
  | _, [] => []
  | m, i :: is => (m.step i).last :: trace (m.step i) is

theorem length_trace (m : Machine) (is : List StepInputs) : (m.trace is).length = is.length := by
  induction is generalizing m with
  | nil => rfl
  | cons i is ih => rw [trace, List.length_cons, List.length_cons, ih]

theorem trace_append (m : Machine) (is js : List StepInputs) :
    m.trace (is ++ js) = m.trace is ++ (m.run is).trace js := by
  induction is generalizing m with
  | nil => rfl
  | cons i is ih => rw [List.cons_append, trace, trace, ih, List.cons_append, run_cons]

theorem take_trace (m : Machine) (is : List StepInputs) (k : Nat) :
    (m.trace is).take k = m.trace (is.take k) := by
  induction is generalizing m k with
  | nil => simp [trace]
  | cons i is ih =>
    cases k with
    | zero => rfl
    | succ k => rw [trace, List.take_succ_cons, List.take_succ_cons, trace, ih]

theorem drop_trace (m : Machine) (is : List StepInputs) (k : Nat) :
    (m.trace is).drop k = (m.run (is.take k)).trace (is.drop k) := by
  induction is generalizing m k with
  | nil => simp [trace]
  | cons i is ih =>
    cases k with
    | zero => rfl
    | succ k =>
      rw [trace, List.drop_succ_cons, ih, List.take_succ_cons, List.drop_succ_cons, run_cons]

/-- The steps between two places lead from the machine at the first to the machine at the second. -/
theorem run_between (m : Machine) (is : List StepInputs) {a b : Nat} (h : a ≤ b) :
    (m.run (is.take a)).run ((is.take b).drop a) = m.run (is.take b) := by
  rw [← run_append, take_append_drop_take is h]

theorem trace_between (m : Machine) (is : List StepInputs) {a b : Nat} (h : a ≤ b) :
    (m.run (is.take a)).trace ((is.take b).drop a) = ((m.trace is).take b).drop a := by
  rw [take_trace, drop_trace, List.take_take, Nat.min_eq_left h]

/-- The instruction at a place of the trace is the one that was next by then. -/
theorem next_of_getElem?_trace {m : Machine} {is : List StepInputs} {k : Nat} {i : Instruction}
    (h : (m.trace is)[k]? = some i) :
    ∃ input, is.take (k + 1) = is.take k ++ [input] ∧ (m.run (is.take k)).next = i := by
  have hk : k < is.length := by
    rw [← m.length_trace is]
    exact (List.getElem?_eq_some_iff.1 h).1
  refine ⟨is[k], List.take_succ_eq_append_getElem hk, ?_⟩
  -- The rest of the trace is the trace of the machine at that place.
  have hdrop : ((m.trace is).drop k)[0]? = some i := by
    rw [List.getElem?_drop]
    exact h
  rw [drop_trace, List.drop_eq_getElem_cons hk, trace, step_last] at hdrop
  exact Option.some.inj hdrop

/-- It is the latest one after its step. -/
theorem last_of_getElem?_trace {m : Machine} {is : List StepInputs} {k : Nat} {i : Instruction}
    (h : (m.trace is)[k]? = some i) : (m.run (is.take (k + 1))).last = i := by
  obtain ⟨input, htake, hnext⟩ := next_of_getElem?_trace h
  rw [htake, run_append, run_cons, run_nil, step_last, hnext]

end Machine

end Chip8
