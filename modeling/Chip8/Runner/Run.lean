import Chip8.Runner.Basic

/-!
# Runs

A run is a sequence of frames. Before each frame the host sleeps for `frameInterval`; the frame's
length is the time since the latest reading of the clock. A run on the caller's own time
(`Runner.run`) ends when the runner halts or after a number of frames.
-/

set_option autoImplicit false

namespace Chip8

/-- The nanoseconds slept before each frame. -/
def frameInterval : Nat := 16667000

/-- A run under way. -/
structure Run (α : Type) where
  runner : Runner α
  machine : Machine
  /-- The latest reading of the clock. -/
  lastReading : Nat
  /-- The frames made. -/
  frames : Nat

namespace Run

variable {α : Type} [PaceNumber α] {m : Type → Type} [Monad m] [Host m]

/-- Begins a run now. -/
def begin (runner : Runner α) (machine : Machine) : m (Run α) := do
  let now ← Host.now
  return ⟨runner.start, machine, now, 0⟩

/-- The frame that ends at a reading of the clock. -/
def frameAt (run : Run α) (keys : HeldKeys) (now : Nat) : m (Run α) := do
  let (_, runner, machine) ← run.runner.update run.machine (now - run.lastReading) keys
  return ⟨runner, machine, now, run.frames + 1⟩

/-- Sleeps and makes a frame. -/
def frame (run : Run α) (keys : HeldKeys) : m (Run α) := do
  Host.sleep frameInterval
  let now ← Host.now
  run.frameAt keys now

/-- Makes frames until the runner halts, at most the given number. -/
def advance (keys : HeldKeys) : Nat → Run α → m (Run α)
  | 0, run => return run
  | n + 1, run => do
      if run.runner.isRunning then
        let run ← run.frame keys
        advance keys n run
      else return run

end Run

/-- Starts a runner and makes frames until it halts, at most the given number. -/
def Runner.run {α : Type} [PaceNumber α] {m : Type → Type} [Monad m] [Host m] (r : Runner α)
    (machine : Machine) (keys : HeldKeys) (maxFrames : Nat) : m (Run α) := do
  let run ← Run.begin r machine
  run.advance keys maxFrames

end Chip8
