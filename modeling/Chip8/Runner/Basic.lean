import Chip8.Host
import Chip8.Settings
import Chip8.Runner.Pacer

/-!
# Runners

A runner decides how many instructions a machine executes in each frame, and when it halts. It is
running, halted for a reason, or was moved by a single step.

The decision (`Runner.frame`) is pure: it needs only the length of the frame and whether the machine
is looping. `Runner.update` carries it out.
-/

set_option autoImplicit false

namespace Chip8

namespace Runner

/-- Why a machine is halted. -/
inductive Halt where
  /-- It has not been started. -/
  | idle
  /-- It was told to stop. -/
  | user
  /-- It jumps to its own address. -/
  | loopDetected
  deriving DecidableEq, Repr

/-- What a runner is doing. -/
inductive Status where
  | running
  | stepped
  | halted (why : Halt)
  deriving DecidableEq, Repr

/-- The text of a status. -/
def Status.text : Status → String
  | running => "Running"
  | stepped => "Stepped"
  | halted .idle => "Halted"
  | halted .user => "Halted (by user)"
  | halted .loopDetected => "Halted (loop detected)"

/-- What a machine has to do in one frame. -/
structure Frame where
  /-- The number of instructions. -/
  count : UInt32
  /-- Whether the timers are frozen meanwhile. -/
  frozen : Bool
  deriving DecidableEq, Repr

/-- A frame in which nothing happens. -/
def Frame.idle : Frame := ⟨0, false⟩

end Runner

/-- The control of a machine's run, with pacing in numbers of the type `α`. -/
structure Runner (α : Type) where
  pacer : Pacer α
  /-- Whether a looping machine is halted. -/
  detectLoop : Bool
  /-- Whether the first frame after a pause freezes the timers. -/
  stopTimers : Bool
  status : Runner.Status
  /-- Whether the latest frame was one of a running machine. -/
  ranLast : Bool

namespace Runner

variable {α : Type} [PaceNumber α]

/-- An idle runner. -/
def ofSettings (s : Settings) : Runner α where
  pacer := .start s.speed
  detectLoop := s.detectLoop
  stopTimers := s.stopTimers
  status := .halted .idle
  ranLast := false

/-- Whether the runner is running. -/
def isRunning (r : Runner α) : Bool := r.status = .running

/-- Sets the machine going. -/
def start (r : Runner α) : Runner α := { r with status := .running }

/-- Halts the machine. -/
def stop (r : Runner α) : Runner α := { r with status := .halted .user }

/-- What a machine has to do in a frame of a given length, and the runner after the frame. The time
of the frame is paced before a loop is noticed. -/
def frame (r : Runner α) (span : Nat) (looping : Bool) : Frame × Runner α :=
  if r.isRunning then
    let (count, pacer) := r.pacer.advance span
    if r.detectLoop && looping then
      (.idle, { r with pacer := pacer, status := .halted .loopDetected, ranLast := false })
    else (⟨count, r.stopTimers && !r.ranLast⟩, { r with pacer := pacer, ranLast := true })
  else (.idle, { r with ranLast := false })

section

variable {m : Type → Type} [Monad m] [Host m]

/-- Lets a machine that is not running execute a single instruction. -/
def step (r : Runner α) (machine : Machine) (keys : HeldKeys) : m (Runner α × Machine) := do
  if r.isRunning then return (r, machine)
  let machine ← machine.cycle keys false 1
  return ({ r with status := .stepped }, machine)

/-- Carries a frame out. The number is that of the instructions executed. -/
def update (r : Runner α) (machine : Machine) (span : Nat) (keys : HeldKeys) :
    m (UInt32 × Runner α × Machine) := do
  let (frame, r) := r.frame span machine.isLooping
  let machine ← machine.cycle keys frame.frozen frame.count.toNat
  return (frame.count, r, machine)

end

end Runner

end Chip8
