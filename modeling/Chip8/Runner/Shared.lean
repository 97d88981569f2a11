import Chip8.Runner.Run

/-!
# Runs under outside control

A run on a thread of its own shares three things with others: a stop signal, the held keys, and
the machine. Each is guarded by a lock, and a lock may be poisoned. Others act while the run
sleeps; what they do during each sleep is a list of events.

The stop signal is looked at before each sleep, the keys and the machine after it. So a stop lets
the frame after the sleep happen, while poisoned keys or a poisoned machine do not.
-/

set_option autoImplicit false

namespace Chip8

/-- What others do to the things shared with a run. -/
inductive ControlEvent where
  /-- Replaces the held keys. -/
  | hold (keys : HeldKeys)
  /-- Gives the stop signal. -/
  | stop
  /-- Poisons the lock of the stop signal. -/
  | poisonStop
  /-- Poisons the lock of the keys. -/
  | poisonKeys
  /-- Poisons the lock of the machine. -/
  | poisonMachine

/-- The things shared with a run, the machine apart. -/
structure Controls where
  /-- Whether the stop signal is given. -/
  stopped : Bool
  keys : HeldKeys
  stopPoisoned : Bool
  keysPoisoned : Bool
  machinePoisoned : Bool

namespace Controls

/-- Controls without a signal, with no lock poisoned but perhaps the machine's. -/
def start (keys : HeldKeys) (machinePoisoned : Bool) : Controls :=
  ⟨false, keys, false, false, machinePoisoned⟩

/-- The controls after an event. -/
def apply (c : Controls) : ControlEvent → Controls
  | .hold keys => { c with keys := keys }
  | .stop => { c with stopped := true }
  | .poisonStop => { c with stopPoisoned := true }
  | .poisonKeys => { c with keysPoisoned := true }
  | .poisonMachine => { c with machinePoisoned := true }

/-- Whether a run ends before it sleeps. -/
def endsBeforeSleep (c : Controls) : Bool := c.stopped || c.stopPoisoned

/-- Whether a run ends after it has slept, before the frame. -/
def endsAfterSleep (c : Controls) : Bool := c.keysPoisoned || c.machinePoisoned

end Controls

/-- A run under outside control. -/
structure SharedRun (α : Type) where
  run : Run α
  controls : Controls
  /-- The sleeps made. -/
  sleeps : Nat
  /-- Whether the run is over. -/
  ended : Bool

namespace SharedRun

variable {α : Type} [PaceNumber α] {m : Type → Type} [Monad m] [Host m]

/-- Makes frames for at most the given number of further sleeps. The schedule tells what others do
during each sleep; the first sleep has the number 1. -/
def advance (schedule : Nat → List ControlEvent) : Nat → SharedRun α → m (SharedRun α)
  | 0, s => return { s with ended := s.ended || s.controls.endsBeforeSleep }
  | n + 1, s => do
      if s.ended || s.controls.endsBeforeSleep then return { s with ended := true }
      Host.sleep frameInterval
      let now ← Host.now
      let sleeps := s.sleeps + 1
      let controls := (schedule sleeps).foldl Controls.apply s.controls
      if controls.endsAfterSleep then
        return { s with controls := controls, sleeps := sleeps, ended := true }
      let run ← s.run.frameAt controls.keys now
      advance schedule n ⟨run, controls, sleeps, !run.runner.isRunning⟩

end SharedRun

/-- Starts a runner under outside control, for at most the given number of sleeps. -/
def Runner.runShared {α : Type} [PaceNumber α] {m : Type → Type} [Monad m] [Host m] (r : Runner α)
    (machine : Machine) (controls : Controls) (schedule : Nat → List ControlEvent) (limit : Nat) :
    m (SharedRun α) := do
  let run ← Run.begin r machine
  SharedRun.advance schedule limit ⟨run, controls, 0, false⟩

end Chip8
