import Chip8.Machine

/-!
# Hosts

A host is what a machine runs on: it has a clock, can let time pass, and has random bytes. A cycle
of steps asks it for a reading and a byte before each step. `Simulated` is a host whose time is a
number: it moves only by sleeping, by being told to, and by a fixed amount at each reading.
-/

set_option autoImplicit false

namespace Chip8

/-- The surroundings that a running machine needs. -/
class Host (m : Type → Type) where
  /-- Reads the clock, in nanoseconds. -/
  now : m Nat
  /-- Sleeps for a number of nanoseconds. -/
  sleep : Nat → m Unit
  /-- A random byte. -/
  randomByte : m UInt8

namespace Machine

variable {m : Type → Type} [Monad m] [Host m]

/-- One step at the present time. -/
def stepNow (machine : Machine) (keys : HeldKeys) (frozen : Bool) : m Machine := do
  let now ← Host.now
  let random ← Host.randomByte
  return machine.step ⟨⟨keys, random⟩, now, frozen⟩

/-- A number of steps, one after the other. -/
def cycle (keys : HeldKeys) (frozen : Bool) : Nat → Machine → m Machine
  | 0, machine => return machine
  | n + 1, machine => do
      let machine ← machine.stepNow keys frozen
      cycle keys frozen n machine

end Machine

/-- A host whose clock is a number. -/
structure Simulated where
  /-- The time. -/
  time : Nat
  /-- How far each reading moves the time. -/
  tick : Nat
  /-- By how much each sleep is late. The list is used over and over. -/
  lateness : List Nat
  /-- The sleeps since the lateness was set. -/
  sleeps : Nat
  /-- The state of the source of random bytes. -/
  seed : UInt64

namespace Simulated

/-- A host at time zero. -/
def start (seed : UInt64) : Simulated := ⟨0, 0, [], 0, seed⟩

/-- Lets time pass. -/
def pass (h : Simulated) (nanos : Nat) : Simulated := { h with time := h.time + nanos }

/-- Sets by how much the coming sleeps are late. -/
def withLateness (h : Simulated) (lateness : List Nat) : Simulated :=
  { h with lateness := lateness, sleeps := 0 }

/-- By how much the next sleep is late. -/
def nextLateness (h : Simulated) : Nat := h.lateness.getD (h.sleeps % h.lateness.length) 0

/-- The time at a reading, which the reading itself moves. -/
def readTime (h : Simulated) : Nat × Simulated := (h.time + h.tick, h.pass h.tick)

/-- Sleeps. -/
def slept (h : Simulated) (nanos : Nat) : Simulated :=
  { h.pass (nanos + h.nextLateness) with sleeps := h.sleeps + 1 }

/-- The next state of the source of random bytes. -/
def nextSeed (h : Simulated) : UInt64 := h.seed * 6364136223846793005 + 1442695040888963407

/-- A random byte: the top of the source's next state. -/
def roll (h : Simulated) : UInt8 × Simulated :=
  ((h.nextSeed >>> 56).toUInt8, { h with seed := h.nextSeed })

instance : Host (StateM Simulated) where
  now := modifyGet readTime
  sleep nanos := modify fun h => h.slept nanos
  randomByte := modifyGet roll

end Simulated

end Chip8
