import Chip8.CommandLine.Arguments
import Chip8.Report
import Chip8.Runner.Run

/-!
# The command

`Command.run` is the whole command: it loads the program file that the arguments name, runs the
machine with the given keys held, and shows the machine. The reading of the arguments, the file
system, the host and the numbers that pace the run are parameters. Its messages are handed to a log;
which of them the log shows, and how, makes no difference to the command.

The machine is shared: the run holds its lock, and a monitor attached before the run shows the
machine after it.
-/

set_option autoImplicit false

namespace Chip8.CommandLine

/-- What a message is about. -/
inductive Level where
  /-- A failure. -/
  | error
  /-- The normal course of things. -/
  | info
  deriving DecidableEq

/-- A message as it is handed to the log. -/
structure Message where
  level : Level
  text : String
  deriving DecidableEq

/-- What is left of a finished command. -/
structure Outcome where
  exitCode : UInt8
  /-- The text on the standard output. -/
  output : String
  /-- The text on the error output, the log apart. -/
  complaint : String
  /-- The command's own messages to the log, in order. -/
  log : List Message
  deriving DecidableEq

namespace Command

/-- What the command says to the log. -/
def message (level : Level) (text : String) : Message := ⟨level, "[APP]: " ++ text⟩

/-- What is said of a program that was not loaded. -/
def loadFailure (e : Rom.LoadError) : Message :=
  message .error (e.message ++ " (" ++ e.status ++ ")")

/-- What is said if the machine's lock cannot be had. -/
def lockFailure : Message := message .error "Machine lock poisoned"

/-- What is said of a finished run. -/
def runEnd (status : Runner.Status) (frames : Nat) : Message :=
  message .info (status.text ++ " after " ++ toString frames ++ " frames")

/-- What is said if the machine cannot be shown. -/
def showFailure (fault : Monitor.Fault) : Message := message .error fault.message

/-- A machine in a pool, and the monitor attached to it. -/
structure Sharing where
  pool : Pool
  id : MachineId
  monitor : Monitor

/-- Shares a machine with a monitor. -/
def share (machine : Machine) : Sharing :=
  let (id, pool) := Pool.empty.add machine
  ⟨pool, id, (Monitor.new.attach pool id).2⟩

/-- The pool once the shared machine has been run. -/
def Sharing.after (s : Sharing) (machine : Machine) : Pool := s.pool.setMachine s.id machine

/-- The outcome of a finished run, of which the log has been told: what a monitor prints of its
machine. -/
def report (told : Message) (d : Monitor) (pool : Pool) : Outcome :=
  match (Report.print d pool).run.run "" with
  | (.ok (), output) => ⟨0, output, "", [told]⟩
  | (.error fault, output) => ⟨1, output, "", [told, showFailure fault]⟩

/-- Stops a runner that is still running. -/
def halt {α : Type} [PaceNumber α] (r : Runner α) : Runner α := if r.isRunning then r.stop else r

section

variable (α : Type) [PaceNumber α] {m : Type → Type} [Monad m] [Host m]

/-- Shares a machine with a monitor, runs it and shows it. -/
def runMachine (a : Arguments) (machine : Machine) : m Outcome := do
  let shared := share machine
  match shared.pool.lock? shared.id with
  | none => return ⟨1, "", "", [lockFailure]⟩
  | some machine =>
      let runner : Runner α := .ofSettings a.settings
      let run ← runner.run machine a.heldKeys a.settings.maxFrames.toNat
      let told := runEnd (halt run.runner).status run.frames
      return report told shared.monitor (shared.after run.machine)

/-- Loads the program file and runs the machine on it. -/
def runProgram (view : Path → m Rom.FileView) (a : Arguments) : m Outcome := do
  let file ← view a.rom
  match Machine.new.loadFile a.rom file with
  | (.error e, _) => return ⟨1, "", "", [loadFailure e]⟩
  | (.ok (), machine) => runMachine α a machine

/-- The whole command. What is read of the arguments may be the end of it. -/
def run {β : Type} (parse : List β → Except Outcome Arguments) (view : Path → m Rom.FileView)
    (args : List β) : m Outcome :=
  match parse args with
  | .error outcome => return outcome
  | .ok a => runProgram α view a

end

end Command

end Chip8.CommandLine
