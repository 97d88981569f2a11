import Chip8.CommandLine.Terminal

/-!
# The program

The command on the real clock and the real file system.
-/

set_option autoImplicit false

namespace Chip8

instance : Host IO where
  now := IO.monoNanosNow
  sleep nanos := IO.sleep (UInt32.ofNat ((nanos + 999999) / 1000000))
  randomByte := return UInt8.ofNat (← IO.rand 0 255)

/-- What the file system shows of a file. -/
def viewFile (path : Path) : IO Rom.FileView := do
  let name := String.ofList path.text
  let entry : IO.FS.DirEntry := ⟨".", name⟩
  try
    let metadata ← entry.path.metadata
    match metadata.type with
    | .file =>
        try
          let contents ← IO.FS.readBinFile entry.path
          return .regular metadata.byteSize.toNat (some contents.data.toList)
        catch _ => return .regular metadata.byteSize.toNat none
    | _ => return .absent
  catch _ => return .absent

end Chip8

/-- Runs the command and leaves with its exit code. -/
def main (args : List String) : IO UInt32 := do
  let release : Chip8.CommandLine.Release := ⟨"chip8-vm", "0.1.0"⟩
  let outcome ← Chip8.CommandLine.Command.run Float release.parse Chip8.viewFile args
  (← IO.getStdout).putStr outcome.output
  let stderr ← IO.getStderr
  stderr.putStr outcome.complaint
  for text in outcome.log.filterMap Chip8.CommandLine.Message.shown? do
    stderr.putStrLn text
  return outcome.exitCode.toUInt32
