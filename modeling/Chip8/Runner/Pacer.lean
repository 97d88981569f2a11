/-!
# Pacing

A pacer turns spans of time into instruction counts at a given speed. Each count is whole; what is
left over is carried to the next span. The arithmetic is a parameter: a run computes in floating
point numbers, and exact rational numbers obey the same definitions.
-/

set_option autoImplicit false

namespace Chip8

/-- The numbers that a pacer computes with. -/
class PaceNumber (α : Type) extends Add α, Sub α, LE α, Zero α, One α where
  /-- The instructions due at a speed a second, in a span of nanoseconds. -/
  due : UInt32 → Nat → α
  /-- The greatest whole number that is not greater. -/
  floor : α → α
  /-- The value of a whole number, clamped to 32 bits. -/
  count : α → UInt32
  decLE : DecidableLE α

instance PaceNumber.instDecidableLE (α : Type) [PaceNumber α] : DecidableLE α :=
  PaceNumber.decLE

/-- Floating point numbers. A span is its seconds plus its remaining nanoseconds as a fraction. -/
instance : PaceNumber Float where
  zero := 0
  one := 1
  due hz nanos :=
    hz.toFloat * (Float.ofNat (nanos / 1000000000) + Float.ofNat (nanos % 1000000000) / 1000000000)
  floor := Float.floor
  count x := x.toUInt32
  decLE := inferInstance

/-- Exact numbers. -/
instance : PaceNumber Rat where
  zero := 0
  one := 1
  due hz nanos := (hz.toNat : Rat) * ((nanos : Rat) / 1000000000)
  floor x := (x.floor : Rat)
  count x := UInt32.ofNat (min x.floor.toNat 4294967295)
  decLE := inferInstance

/-- A speed, and the fraction of an instruction that earlier spans left over. -/
structure Pacer (α : Type) where
  /-- Instructions a second. -/
  speed : UInt32
  carry : α

namespace Pacer

variable {α : Type} [PaceNumber α]

/-- A pacer with nothing left over. -/
def start (speed : UInt32) : Pacer α := ⟨speed, 0⟩

/-- The instructions of a span, and the pacer after it. When the carried fractions make up a whole
instruction, it is executed in this span. -/
def advance (p : Pacer α) (span : Nat) : UInt32 × Pacer α :=
  let due : α := PaceNumber.due p.speed span
  let whole := PaceNumber.floor due
  let carry := p.carry + (due - whole)
  if 1 ≤ carry then
    (PaceNumber.count (whole + 1), { p with carry := carry - PaceNumber.floor carry })
  else (PaceNumber.count whole, { p with carry := carry })

end Pacer

end Chip8
