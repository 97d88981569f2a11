import Chip8.Keypad
import Chip8.Text.LowerCase

/-!
# Settings

How fast a machine runs, when it is halted, and which keyboard characters stand for which keys.
-/

set_option autoImplicit false

namespace Chip8

/-- The slots that keyboard characters stand for. Of two entries for one character the later one
counts. -/
abbrev Keymap := List (Char × UInt8)

namespace Keymap

/-- The left-hand block of a keyboard, row by row. -/
def default : Keymap :=
  "1234qwerasdfzxcv".toList.zipIdx.map fun (c, slot) => (c, UInt8.ofNat slot)

/-- The slot of a character. Slot numbers beyond the last key start over. -/
def slot? (keymap : Keymap) (c : Char) : Option Nibble :=
  (keymap.reverse.lookup c).map Nibble.ofByte

/-- The keys held while the given characters are held down. Each character is read in lower case,
and one that stands for no key is ignored. -/
def heldKeys (keymap : Keymap) (text : String) : HeldKeys :=
  let slots := (text.toList.flatMap Text.lowerCase).filterMap keymap.slot?
  .ofFn fun slot => slots.contains slot

end Keymap

/-- The choices that a run depends on. -/
structure Settings where
  /-- Instructions a second. -/
  speed : UInt32
  /-- Whether a machine that jumps to its own address is halted. -/
  detectLoop : Bool
  /-- Whether the timers stand still while the machine does. -/
  stopTimers : Bool
  /-- The frames after which a run without a halt ends. -/
  maxFrames : UInt32
  keymap : Keymap

/-- The settings of a run that chooses nothing. -/
def Settings.default : Settings := ⟨500, true, true, 600, Keymap.default⟩

end Chip8
