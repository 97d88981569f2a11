import Chip8.Text.Utf8

/-!
# Paths

A path is a string of bytes. Slashes separate its components; empty components and all single dots
but a leading one count for nothing, so one place has many spellings. The base name is the last
component when that is a name, and else the whole path.
-/

set_option autoImplicit false

namespace Chip8

/-- A path to a file. -/
structure Path where
  bytes : List UInt8
  deriving DecidableEq

namespace Path

/-- One component of a path. -/
inductive Component where
  /-- The root directory. -/
  | root
  /-- The directory in which the path starts, written as a leading dot. -/
  | here
  /-- The directory above. -/
  | parent
  /-- A name. -/
  | name (bytes : List UInt8)
  deriving DecidableEq

/-- The separator of components. -/
def slash : UInt8 := 0x2F

/-- The byte of a dot. -/
def dot : UInt8 := 0x2E

/-- A path from its text. -/
def ofString (text : String) : Path := ⟨Text.Utf8.encode text⟩

/-- The path as text. -/
def text (p : Path) : List Char := Text.Utf8.decode p.bytes

/-- The first piece between separators, and the pieces after it. -/
def split : List UInt8 → List UInt8 × List (List UInt8)
  | [] => ([], [])
  | b :: bs =>
      let (piece, pieces) := split bs
      if b = slash then ([], piece :: pieces) else (b :: piece, pieces)

/-- The component that a piece stands for, if it counts. -/
def component? (piece : List UInt8) : Option Component :=
  if piece = [] ∨ piece = [dot] then none
  else if piece = [dot, dot] then some .parent
  else some (.name piece)

/-- Whether a path starts at the root directory. -/
def isRooted (p : Path) : Bool := p.bytes.head? == some slash

/-- The components of a path. -/
def components (p : Path) : List Component :=
  let (piece, pieces) := split p.bytes
  let start : List Component :=
    if p.isRooted then [.root] else if piece = [dot] then [.here] else (component? piece).toList
  start ++ pieces.filterMap component?

/-- The name that a path ends in, if it ends in one. -/
def fileName? (p : Path) : Option (List UInt8) :=
  match p.components.getLast? with
  | some (.name bytes) => some bytes
  | _ => none

/-- The text of the name that a path ends in, or of the whole path. -/
def baseName (p : Path) : List Char :=
  match p.fileName? with
  | some bytes => Text.Utf8.decode bytes
  | none => p.text

end Path

end Chip8
