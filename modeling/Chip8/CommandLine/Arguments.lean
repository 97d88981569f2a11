import Chip8.Path
import Chip8.Settings

/-!
# Arguments

What the arguments of the command ask for: a program file, held keys, and the choices of the run.
-/

set_option autoImplicit false

namespace Chip8.CommandLine

/-- What the arguments ask for. -/
structure Arguments where
  /-- The path of the program file. -/
  rom : Path
  /-- The keyboard characters held down. -/
  keys : String
  /-- Instructions a second. -/
  speed : UInt32
  /-- The frames to run at most. -/
  maxFrames : UInt32
  /-- Whether a machine that jumps to its own address goes on. -/
  noDetectLoop : Bool
  /-- Whether the timers run through pauses. -/
  noStopTimers : Bool
  deriving DecidableEq

/-- The settings that arguments ask for. -/
def Arguments.settings (a : Arguments) : Settings :=
  { Settings.default with
    speed := a.speed
    detectLoop := !a.noDetectLoop
    stopTimers := !a.noStopTimers
    maxFrames := a.maxFrames }

/-- The keys that are held during the run. -/
def Arguments.heldKeys (a : Arguments) : HeldKeys := a.settings.keymap.heldKeys a.keys

end Chip8.CommandLine
