import Chip8.Sprite
import Chip8.Keypad

/-!
# Executing an instruction

`State.execute` is the effect of one instruction, before the program counter moves on. It is total:
registers, stack slots, keys, memory and screen cells are named modulo their number, and arithmetic
wraps.

An instruction that writes a flag and a result writes the flag first. With the flag register as its
destination the result therefore stays.
-/

set_option autoImplicit false

namespace Chip8

/-- What an instruction takes from outside: the keys held, and a byte for it to use if it asks for a
random one. -/
structure Inputs where
  keys : HeldKeys
  random : UInt8

namespace State

/-- The byte 1 for true and 0 for false. -/
def flagByte (c : Bool) : UInt8 := if c then 1 else 0

/-- Goes to `target` and keeps the place of the call on the stack. After sixteen calls the slots are
used again from the first. -/
def callTo (s : State) (target : UInt16) : State :=
  let s := { s with sp := s.sp + 1 }
  { s with stack := s.stack.set s.slot s.pc }.jumpTo target

/-- Goes back to the place of the latest call. The pointer of an empty stack stays at zero. -/
def returnToCaller (s : State) : State :=
  { s with pc := s.stack.get s.slot, sp := if s.sp = 0 then 0 else s.sp - 1 }

/-- Stores the first held key's value, or moves the program counter back so that the instruction is
executed again. -/
def awaitKey (s : State) (x : Nibble) (keys : HeldKeys) : State :=
  match (Keypad.heldValues keys).head? with
  | some value => s.setReg x value
  | none => { s with pc := s.pc - 2 }

/-- Stores the decimal digits of a byte at the index register, hundreds first. -/
def storeDigits (s : State) (b : UInt8) : State :=
  { s with
    memory :=
      ((s.memory.write s.i (b / 100)).write (s.i + 1) (b / 10 % 10)).write (s.i + 2) (b % 10) }

/-- The registers up to `x`, in ascending order. -/
def registersTo (x : Nibble) : List Nibble := (List.finRange 16).filter (· ≤ x)

/-- Stores the registers up to `x` at the index register. -/
def storeRegisters (s : State) (x : Nibble) : State :=
  { s with
    memory :=
      (registersTo x).foldl (fun m r => m.write (s.i + UInt16.ofNat r.val) (s.reg r)) s.memory }

/-- Loads the registers up to `x` from the index register on. -/
def loadRegisters (s : State) (x : Nibble) : State :=
  { s with
    v := .ofFn fun r => if r ≤ x then s.memory.read (s.i + UInt16.ofNat r.val) else s.reg r }

/-- The effect of an instruction on a state. -/
def execute (inputs : Inputs) (instruction : Instruction) (s : State) : State :=
  let o := instruction.operand
  let vx := s.reg o.x
  let vy := s.reg o.y
  match instruction.opcode with
  | .noop => s
  | .clearScreen => { s with screen := Screen.dark }
  | .ret => s.returnToCaller
  | .jump => s.jumpTo o.addr
  | .call => s.callTo o.addr
  | .skipIfByte => s.skipIf (vx = o.byte)
  | .skipUnlessByte => s.skipIf (vx ≠ o.byte)
  | .skipIfSame => s.skipIf (vx = vy)
  | .loadByte => s.setReg o.x o.byte
  | .addByte => s.setReg o.x (vx + o.byte)
  | .copy => s.setReg o.x vy
  | .or => s.setReg o.x (vx ||| vy)
  | .and => s.setReg o.x (vx &&& vy)
  | .xor => s.setReg o.x (vx ^^^ vy)
  | .add => (s.setReg flag (flagByte (vx.toNat + vy.toNat ≥ 256))).setReg o.x (vx + vy)
  | .subtract => (s.setReg flag (flagByte (vx > vy))).setReg o.x (vx - vy)
  | .shiftRight =>
      -- The register is read again: as its own flag it holds the bit shifted out.
      let s := s.setReg flag (vx &&& 1)
      s.setReg o.x (s.reg o.x >>> 1)
  | .subtractFrom =>
      -- Both registers are read again: either one may be the flag.
      let s := s.setReg flag (flagByte (vy ≤ vx))
      s.setReg o.x (s.reg o.y - s.reg o.x)
  | .shiftLeft =>
      -- The flag is the top bit in its place, and the register is read again.
      let s := s.setReg flag (vx &&& 0x80)
      s.setReg o.x (s.reg o.x <<< 1)
  | .skipUnlessSame => s.skipIf (vx ≠ vy)
  | .loadIndex => { s with i := o.addr }
  | .jumpOffset => s.jumpTo (o.addr + (s.reg (.ofNat 0)).toUInt16)
  | .random => s.setReg o.x (inputs.random &&& o.byte)
  | .draw => s.drawSprite o.x o.y (s.memory.readBytes s.i o.n.val)
  | .skipIfHeld => s.skipIf (inputs.keys.get (Nibble.ofByte vx))
  | .skipUnlessHeld => s.skipIf !(inputs.keys.get (Nibble.ofByte vx))
  | .readDelay => s.setReg o.x s.delay
  | .awaitKey => s.awaitKey o.x inputs.keys
  | .writeDelay => { s with delay := vx }
  | .writeSound => { s with sound := vx }
  | .advanceIndex => { s with i := s.i + vx.toUInt16 }
  | .loadGlyph => { s with i := Font.glyph vx }
  | .storeDigits => s.storeDigits vx
  | .storeRegisters => s.storeRegisters o.x
  | .loadRegisters => s.loadRegisters o.x

end State

end Chip8
