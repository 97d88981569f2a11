import Chip8.CommandLine.Arguments

/-!
# Reading arguments

The arguments as they are typed: one program file, and options. An option's value may be the next
argument, may follow its letter directly or after an equals sign, or may follow its name after an
equals sign. After two dashes alone, every argument is a file.

A value is looked at only when it is settled: when the next option or file begins, or at the end. An
argument that is refused at once is therefore reported before a bad value in front of it.
-/

set_option autoImplicit false

namespace Chip8.CommandLine

/-- Why no run follows from the arguments. -/
inductive Refusal where
  /-- The help is asked for. -/
  | help
  /-- The version is asked for. -/
  | version
  /-- No program file is named. -/
  | noRom
  /-- A number is malformed or too large. -/
  | badNumber
  /-- An option has no value, or the file's path is empty. -/
  | noValue
  /-- An option is unknown, or there is a second file. -/
  | unknown
  /-- An option is given twice. -/
  | repeated
  /-- An option that takes no value has one. -/
  | surplusValue
  deriving DecidableEq, Repr

/-- The things that take a value. -/
inductive Field where
  | rom
  | keys
  | speed
  | maxFrames
  deriving DecidableEq

/-- The options that take none. -/
inductive Switch where
  | noDetectLoop
  | noStopTimers
  | help
  | version
  deriving DecidableEq

/-- An option. -/
inductive OptionKind where
  | field (f : Field)
  | switch (s : Switch)

/-- The option with a letter. -/
def ofLetter? : Char → Option OptionKind
  | 'k' => some (.field .keys)
  | 's' => some (.field .speed)
  | 'm' => some (.field .maxFrames)
  | 'h' => some (.switch .help)
  | 'V' => some (.switch .version)
  | _ => none

/-- The option with a name. -/
def ofName? (name : List Char) : Option OptionKind :=
  [("keys", OptionKind.field .keys), ("run-speed-hz", .field .speed),
    ("max-frames", .field .maxFrames), ("no-detect-loop", .switch .noDetectLoop),
    ("no-stop-timers", .switch .noStopTimers), ("help", .switch .help),
    ("version", .switch .version)].lookup (.ofList name)

/-- What has been read of the arguments. -/
structure Draft where
  rom : Option String
  keys : Option String
  speed : Option UInt32
  maxFrames : Option UInt32
  noDetectLoop : Bool
  noStopTimers : Bool
  /-- The field begun last, with its value if that has been seen. -/
  pending : Option (Field × Option String)

namespace Draft

/-- Nothing read. -/
def empty : Draft := ⟨none, none, none, none, false, false, none⟩

/-- Whether a field has a settled value. -/
def has (d : Draft) : Field → Bool
  | .rom => d.rom.isSome
  | .keys => d.keys.isSome
  | .speed => d.speed.isSome
  | .maxFrames => d.maxFrames.isSome

/-- The value of decimal digits. -/
def digits? (cs : List Char) : Option Nat :=
  if cs ≠ [] ∧ cs.all Char.isDigit then
    some (cs.foldl (fun n c => 10 * n + (c.toNat - '0'.toNat)) 0)
  else none

/-- The value of a numeral: decimal digits with at most one sign before them. -/
def numeral? : List Char → Option Int
  | '+' :: cs => (digits? cs).map Int.ofNat
  | '-' :: cs => (digits? cs).map fun n => -Int.ofNat n
  | cs => (digits? cs).map Int.ofNat

/-- A number of 32 bits from its text. -/
def number (text : String) : Except Refusal UInt32 :=
  match numeral? text.toList with
  | some n => if 0 ≤ n ∧ n < 4294967296 then .ok (UInt32.ofNat n.toNat) else .error .badNumber
  | none => .error .badNumber

/-- Gives a field its value. -/
def assign (d : Draft) (f : Field) (value : String) : Except Refusal Draft := do
  if d.has f then throw .repeated
  match f with
  | .rom => if value = "" then throw .noValue else return { d with rom := some value }
  | .keys => return { d with keys := some value }
  | .speed => return { d with speed := some (← number value) }
  | .maxFrames => return { d with maxFrames := some (← number value) }

/-- Settles the field begun last. -/
def settle (d : Draft) : Except Refusal Draft :=
  match d.pending with
  | none => .ok d
  | some (_, none) => .error .noValue
  | some (f, some value) => { d with pending := none }.assign f value

/-- Begins a field whose value is still to come. -/
def expect (d : Draft) (f : Field) : Except Refusal Draft := do
  return { ← d.settle with pending := some (f, none) }

/-- Begins a field and settles it at once. -/
def attach (d : Draft) (f : Field) (value : String) : Except Refusal Draft := do
  (← d.settle).assign f value

/-- Turns a switch on. -/
def turnOn (d : Draft) (s : Switch) : Except Refusal Draft := do
  let d ← d.settle
  match s with
  | .noDetectLoop =>
      if d.noDetectLoop then throw .repeated else return { d with noDetectLoop := true }
  | .noStopTimers =>
      if d.noStopTimers then throw .repeated else return { d with noStopTimers := true }
  | .help => throw .help
  | .version => throw .version

/-- Whether the program file has been named. -/
def hasRom (d : Draft) : Bool :=
  d.rom.isSome || match d.pending with
    | some (.rom, _) => true
    | _ => false

/-- Reads an argument that is a file. -/
def readFile (d : Draft) (arg : String) : Except Refusal Draft := do
  if d.hasRom then throw .unknown
  return { ← d.settle with pending := some (.rom, some arg) }

/-- Reads an argument that is no option: the value of the field begun last, or a file. -/
def readPlain (d : Draft) (arg : String) : Except Refusal Draft :=
  match d.pending with
  | some (f, none) => .ok { d with pending := some (f, some arg) }
  | _ => d.readFile arg

/-- Reads an option's name, and the value after the equals sign if there is one. -/
def readName (d : Draft) (name : List Char) (value : Option String) : Except Refusal Draft :=
  match ofName? name, value with
  | some (.field f), none => d.expect f
  | some (.field f), some value => d.attach f value
  | some (.switch s), none => d.turnOn s
  | some (.switch _), some _ => .error .surplusValue
  | none, _ => .error .unknown

/-- Reads the letters behind a dash. What follows the letter of an option with a value is the value,
with or without an equals sign. -/
def readLetters (d : Draft) : List Char → Except Refusal Draft
  | [] => .ok d
  | c :: cs =>
      match ofLetter? c, cs with
      | some (.field f), [] => d.expect f
      | some (.field f), '=' :: value => d.attach f (.ofList value)
      | some (.field f), value => d.attach f (.ofList value)
      | some (.switch s), _ => do (← d.turnOn s).readLetters cs
      | none, _ => .error .unknown

/-- Splits the text behind two dashes at the first equals sign. -/
def splitName : List Char → List Char × Option (List Char)
  | [] => ([], none)
  | '=' :: cs => ([], some cs)
  | c :: cs => ((c :: (splitName cs).1), (splitName cs).2)

/-- Reads one argument before two dashes alone. -/
def readArgument (d : Draft) (arg : String) : Except Refusal Draft :=
  match arg.toList with
  | '-' :: '-' :: rest => d.readName (splitName rest).1 ((splitName rest).2.map .ofList)
  | ['-'] => d.readPlain arg
  | '-' :: letters => d.readLetters letters
  | _ => d.readPlain arg

/-- Reads arguments in order. -/
def readAll (d : Draft) : List String → Except Refusal Draft
  | [] => d.settle
  | "--" :: files => do (← files.foldlM readFile d).settle
  | arg :: args => do (← d.readArgument arg).readAll args

/-- The arguments that have been read. -/
def finish (d : Draft) : Except Refusal Arguments :=
  match d.rom with
  | none => .error .noRom
  | some rom =>
      .ok {
        rom := .ofString rom
        keys := d.keys.getD ""
        speed := d.speed.getD Settings.default.speed
        maxFrames := d.maxFrames.getD Settings.default.maxFrames
        noDetectLoop := d.noDetectLoop
        noStopTimers := d.noStopTimers }

end Draft

/-- Reads the arguments of the command. -/
def Arguments.parse (args : List String) : Except Refusal Arguments := do
  (← Draft.empty.readAll args).finish

end Chip8.CommandLine
