import Chip8.State

/-!
# Timers and the clock

Time is counted in nanoseconds. The two timers of a machine fall by sixty a second. Sixty times the
elapsed time is added up, and each whole second in the sum is one tick; the rest waits for the next
time.
-/

set_option autoImplicit false

namespace Chip8

/-- The nanoseconds of a second. -/
abbrev nanosPerSecond : Nat := 1000000000

instance neZero_nanosPerSecond : @NeZero Nat Zero.ofOfNat0 nanosPerSecond := ⟨by decide⟩

/-- The ticks of a second. -/
def timerRate : Nat := 60

/-- What a machine remembers of the clock between two steps. -/
structure TickClock where
  /-- The reading at the latest step. -/
  lastReading : Option Nat
  /-- The elapsed time that has not made a whole tick yet, multiplied by `timerRate`. -/
  pending : Fin nanosPerSecond
  deriving DecidableEq

namespace TickClock

/-- A clock that has never been read. -/
def unread : TickClock := ⟨none, 0⟩

/-- The time since the latest reading: nothing without one, and nothing if the clock went back. -/
def elapsed (c : TickClock) (now : Nat) : Nat :=
  match c.lastReading with
  | some before => now - before
  | none => 0

/-- The time that waits after a span, in units of a second's `timerRate`-th part. -/
def due (c : TickClock) (span : Nat) : Nat := c.pending.val + span * timerRate

/-- The ticks that a span completes. -/
def ticks (c : TickClock) (span : Nat) : Nat := c.due span / nanosPerSecond

/-- The clock after a span has been turned into ticks. -/
def settle (c : TickClock) (span : Nat) : TickClock :=
  { c with pending := ⟨c.due span % nanosPerSecond, Nat.mod_lt _ (by decide)⟩ }

/-- What is pending is less than a tick. -/
@[simp]
theorem ticks_zero (c : TickClock) : c.ticks 0 = 0 := by
  rw [ticks, due, Nat.zero_mul, Nat.add_zero, Nat.div_eq_of_lt c.pending.isLt]

@[simp]
theorem settle_zero (c : TickClock) : c.settle 0 = c := by
  have hdue : c.due 0 % nanosPerSecond = c.pending.val := by
    rw [due, Nat.zero_mul, Nat.add_zero, Nat.mod_eq_of_lt c.pending.isLt]
  simp only [settle, hdue]

end TickClock

/-- Lets both timers fall by a number of ticks, to zero at the least. -/
def State.countDown (s : State) (ticks : Nat) : State :=
  { s with
    delay := UInt8.ofNat (s.delay.toNat - ticks)
    sound := UInt8.ofNat (s.sound.toNat - ticks) }

namespace State

theorem toNat_delay_countDown (s : State) (ticks : Nat) :
    (s.countDown ticks).delay.toNat = s.delay.toNat - ticks := by
  have h := s.delay.toNat_lt
  show (UInt8.ofNat (s.delay.toNat - ticks)).toNat = _
  rw [UInt8.toNat_ofNat', Nat.mod_eq_of_lt (by omega)]

theorem toNat_sound_countDown (s : State) (ticks : Nat) :
    (s.countDown ticks).sound.toNat = s.sound.toNat - ticks := by
  have h := s.sound.toNat_lt
  show (UInt8.ofNat (s.sound.toNat - ticks)).toNat = _
  rw [UInt8.toNat_ofNat', Nat.mod_eq_of_lt (by omega)]

@[simp]
theorem countDown_zero (s : State) : s.countDown 0 = s := by
  simp [countDown]

/-- Ticks add up. -/
theorem countDown_countDown (s : State) (k n : Nat) :
    (s.countDown k).countDown n = s.countDown (k + n) := by
  have hdelay := s.toNat_delay_countDown k
  have hsound := s.toNat_sound_countDown k
  rw [countDown, hdelay, hsound, Nat.sub_sub, Nat.sub_sub]
  rfl

end State

end Chip8
