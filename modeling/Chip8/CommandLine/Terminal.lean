import Chip8.CommandLine.Command
import Chip8.CommandLine.Parser

/-!
# The command at a terminal

What a user meets around the command: the help, the reasons why arguments are refused, and the
messages of the log. The command itself depends on none of it.
-/

set_option autoImplicit false

namespace Chip8.CommandLine

/-- The text that says why arguments are refused. -/
def Refusal.message : Refusal → String
  | help => "help was asked for"
  | version => "the version was asked for"
  | noRom => "the following required arguments were not provided: <ROM>"
  | badNumber => "invalid value for a number from 0 to 4294967295"
  | noValue => "a value is required but none was supplied"
  | unknown => "unexpected argument found"
  | repeated => "an argument cannot be used multiple times"
  | surplusValue => "unexpected value for an argument that takes none"

/-- A command as it is given to users, by its name and version. -/
structure Release where
  name : String
  version : String

namespace Release

/-- The text of the help. -/
def help (r : Release) : String :=
  "Runs a CHIP-8 ROM headless and prints the final screen\n\n"
    ++ "Usage: " ++ r.name ++ " [OPTIONS] <ROM>\n\n"
    ++ "Arguments:\n"
    ++ "  <ROM>  Path to the ROM file to run\n\n"
    ++ "Options:\n"
    ++ "  -k, --keys <KEYS>                  Keyboard keys held down for the whole run\n"
    ++ "  -s, --run-speed-hz <RUN_SPEED_HZ>  Instructions per second [default: 500]\n"
    ++ "  -m, --max-frames <MAX_FRAMES>      Frames to run before halting [default: 600]\n"
    ++ "      --no-detect-loop               Keep running when the ROM jumps to itself\n"
    ++ "      --no-stop-timers               Let timers run down across pauses\n"
    ++ "  -h, --help                         Print help\n"
    ++ "  -V, --version                      Print version\n"

/-- The outcome of refused arguments. The help and the version are no failures. -/
def refuse (r : Release) : Refusal → Outcome
  | .help => ⟨0, r.help, "", []⟩
  | .version => ⟨0, r.name ++ " " ++ r.version ++ "\n", "", []⟩
  | refusal => ⟨2, "", "error: " ++ refusal.message ++ "\n", []⟩

/-- Reads the arguments. Refused arguments end the command. -/
def parse (r : Release) (args : List String) : Except Outcome Arguments :=
  (Arguments.parse args).mapError r.refuse

end Release

/-- A newline, and after it the blanks in front of a line that continues a message. -/
def continuation : List Char := '\n' :: List.replicate 4 ' '

/-- A message with its lines after the first set in from the margin, so that each message begins at
the margin and nothing else does. -/
def setIn (text : String) : String :=
  .ofList (text.toList.flatMap fun c => if c = '\n' then continuation else [c])

/-- What is shown of a message of the log. Only failures are shown. -/
def Message.shown? (message : Message) : Option String :=
  match message.level with
  | .error => some (setIn message.text)
  | .info => none

end Chip8.CommandLine
