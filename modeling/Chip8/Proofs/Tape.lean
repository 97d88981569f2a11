import Chip8.Proofs.Run
import Chip8.Runner.Basic

/-!
# Cycles as runs, and hosts that are written down

A cycle of steps asks its host for a reading of the clock and a byte before each step. What the host
answers does not depend on the machine, so a cycle is a run of the steps on the answers
(`Machine.cycle_eq_map_run`), in any lawful monad; and so is what a runner makes of a frame
(`Runner.update_eq_map`).

A tape is a host whose answers are written down beforehand: how far the clock moves before each
reading, and the bytes. Statements about all tapes are statements about every course of the clock.
-/

set_option autoImplicit false

namespace Chip8

section

variable {m : Type → Type} [Monad m] [Host m]

/-- What `n` steps with the same keys take from outside. -/
def stepInputs (keys : HeldKeys) (frozen : Bool) : Nat → m (List StepInputs)
  | 0 => return []
  | n + 1 => do
      let now ← Host.now
      let random ← Host.randomByte
      let is ← stepInputs keys frozen n
      return ⟨⟨keys, random⟩, now, frozen⟩ :: is

variable [LawfulMonad m]

theorem Machine.cycle_eq_map_run (machine : Machine) (keys : HeldKeys) (frozen : Bool) (n : Nat) :
    machine.cycle keys frozen n = machine.run <$> (stepInputs keys frozen n : m _) := by
  induction n generalizing machine with
  | zero => simp only [cycle, stepInputs, map_pure, run_nil]
  | succ n ih =>
    simp only [cycle, stepInputs, stepNow, map_eq_pure_bind, bind_assoc, pure_bind, ih, run_cons]

/-- A frame that a runner carries out is a run of as many steps as the frame has. -/
theorem Runner.update_eq_map {α : Type} [PaceNumber α] (r : Runner α) (machine : Machine)
    (span : Nat) (keys : HeldKeys) :
    let frame := (r.frame span machine.isLooping).1
    r.update machine span keys =
      (fun is => (frame.count, (r.frame span machine.isLooping).2, machine.run is)) <$>
        (stepInputs keys frame.frozen frame.count.toNat : m _) := by
  simp only [update, Machine.cycle_eq_map_run, map_eq_pure_bind, bind_assoc, pure_bind]

end

theorem length_stepInputs {σ : Type} [Host (StateM σ)] (keys : HeldKeys) (frozen : Bool) (n : Nat)
    (host : σ) : ((stepInputs keys frozen n : StateM σ _).run host).1.length = n := by
  induction n generalizing host with
  | zero => rfl
  | succ n ih => exact congrArg (· + 1) (ih _)

/-- A host whose future is written down. -/
structure Tape where
  /-- The time. -/
  time : Nat
  /-- How far the clock moves before each reading to come. -/
  waits : Nat → Nat
  /-- The bytes to come. -/
  bytes : Nat → UInt8

namespace Tape

/-- Lets time pass. -/
def pass (t : Tape) (nanos : Nat) : Tape := { t with time := t.time + nanos }

/-- The time at the next reading. -/
def readTime (t : Tape) : Nat × Tape :=
  (t.time + t.waits 0, { t with time := t.time + t.waits 0, waits := fun k => t.waits (k + 1) })

/-- The next byte. -/
def readByte (t : Tape) : UInt8 × Tape := (t.bytes 0, { t with bytes := fun k => t.bytes (k + 1) })

instance : Host (StateM Tape) where
  now := modifyGet readTime
  sleep nanos := modify fun t => t.pass nanos
  randomByte := modifyGet readByte

/-- What `n` steps take from a tape, and the tape after them. -/
def feed (keys : HeldKeys) (frozen : Bool) (n : Nat) (t : Tape) : List StepInputs × Tape :=
  (stepInputs keys frozen n : StateM Tape _).run t

variable (keys : HeldKeys) (frozen : Bool)

@[simp]
theorem feed_zero (t : Tape) : t.feed keys frozen 0 = ([], t) := rfl

/-- The first step takes what is at the head of the tape, the others what follows. -/
theorem feed_succ (n : Nat) (t : Tape) :
    t.feed keys frozen (n + 1) =
      let rest := (t.readTime.2.readByte.2).feed keys frozen n
      (⟨⟨keys, t.readTime.2.readByte.1⟩, t.readTime.1, frozen⟩ :: rest.1, rest.2) := rfl

/-- The clock does not go back: the steps read it between the times before and after. -/
theorem time_feed (n : Nat) (t : Tape) :
    t.time ≤ (t.feed keys frozen n).2.time ∧
      ∀ i ∈ (t.feed keys frozen n).1, i.frozen = frozen ∧
        t.time ≤ i.now ∧ i.now ≤ (t.feed keys frozen n).2.time := by
  induction n generalizing t with
  | zero => simp
  | succ n ih =>
    obtain ⟨htime, hinputs⟩ := ih t.readTime.2.readByte.2
    have hread : t.readTime.2.readByte.2.time = t.readTime.1 := rfl
    have hstart : t.time ≤ t.readTime.1 := Nat.le_add_right _ _
    rw [hread] at htime hinputs
    rw [feed_succ]
    refine ⟨Nat.le_trans hstart htime, fun i hi => ?_⟩
    rcases List.mem_cons.1 hi with rfl | hi
    · exact ⟨rfl, hstart, htime⟩
    · obtain ⟨hfrozen, hlow, hhigh⟩ := hinputs i hi
      exact ⟨hfrozen, Nat.le_trans hstart hlow, hhigh⟩

theorem length_feed (n : Nat) (t : Tape) : (t.feed keys frozen n).1.length = n :=
  length_stepInputs keys frozen n t

end Tape

end Chip8
