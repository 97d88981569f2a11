import Chip8.Execute
import Chip8.Rom
import Chip8.Timing

/-!
# Machines

A machine is a state with its latest instruction, what it knows of the clock, and the program image
it runs. A step lets the timers fall, fetches the word at the program counter, executes it and moves
the program counter on.
-/

set_option autoImplicit false

namespace Chip8

/-- A machine at work. -/
structure Machine where
  state : State
  /-- The instruction of the latest step. -/
  last : Instruction
  /-- The address of that instruction. -/
  lastPc : UInt16
  clock : TickClock
  rom : Rom.Info
  deriving DecidableEq

/-- What a step takes from outside: what its instruction takes, the reading of the clock, and
whether the timers are frozen. -/
structure StepInputs extends Inputs where
  /-- The reading of the clock in nanoseconds. -/
  now : Nat
  /-- Whether the time since the latest step is kept from the timers. -/
  frozen : Bool

namespace Machine

/-- A machine that starts on a memory. -/
def ofMemory (memory : Memory) (rom : Rom.Info) : Machine where
  state := .ofMemory memory
  last := .noop
  lastPc := programStart
  clock := .unread
  rom := rom

/-- A machine without a program. -/
def new : Machine := ofMemory .blank (.unnamed 0)

/-- A machine that starts on a program image. -/
def ofProgram (program : List UInt8) (rom : Rom.Info) : Machine := ofMemory (.ofProgram program) rom

/-- Starts anew without a program. -/
def reset (_ : Machine) : Machine := new

/-- Loads an image. A machine on which loading fails stays as it is. -/
def loadProgram (m : Machine) (program : List UInt8) : Except Rom.LoadError Unit × Machine :=
  match Rom.checkSize "<memory>" program.length with
  | .ok () => (.ok (), ofProgram program (.unnamed program.length))
  | .error e => (.error e, m)

/-- Loads the image in a file. A machine on which loading fails stays as it is. -/
def loadFile (m : Machine) (path : Path) (file : Rom.FileView) :
    Except Rom.LoadError Unit × Machine :=
  match Rom.image (.ofList path.baseName) file with
  | .ok program => (.ok (), ofProgram program (.ofPath path program.length))
  | .error e => (.error e, m)

/-- Lets a span of time pass for the timers. -/
def decay (m : Machine) (span : Nat) : Machine :=
  { m with state := m.state.countDown (m.clock.ticks span), clock := m.clock.settle span }

/-- Notes a reading of the clock. Unless frozen, the timers fall by the time since the reading
before. -/
def readClock (m : Machine) (now : Nat) (frozen : Bool) : Machine :=
  let noted := { m with clock.lastReading := some now }
  if frozen then noted else noted.decay (m.clock.elapsed now)

/-- The instruction that the next step executes. -/
def next (m : Machine) : Instruction := m.state.instructionAt m.state.pc

/-- Executes the instruction at the program counter. -/
def executeNext (m : Machine) (inputs : Inputs) : Machine :=
  { m with
    state := (m.state.execute inputs m.next).advance
    last := m.next
    lastPc := m.state.pc }

/-- One step. -/
def step (m : Machine) (inputs : StepInputs) : Machine :=
  (m.readClock inputs.now inputs.frozen).executeNext inputs.toInputs

/-- Whether the latest step jumped to its own address. -/
def isLooping (m : Machine) : Bool := m.last.opcode = .jump && m.last.operand.addr = m.lastPc

/-- Whether the sound timer is on. -/
def isSounding (m : Machine) : Bool := m.state.sound > 0

end Machine

end Chip8
