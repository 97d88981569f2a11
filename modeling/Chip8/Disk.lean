import Chip8.Rom

/-!
# A file tree

Files and directories below a working directory, and what is found under a path. A path is followed
piece by piece: every piece but the last must be a directory, and so must the last one when a slash
follows it. Nothing is known outside the working directory.
-/

set_option autoImplicit false

namespace Chip8

/-- What stands at a place in a file tree. -/
inductive DiskNode where
  | file (contents : List UInt8)
  | directory

/-- The place of a file or directory: the names that lead to it from the working directory. -/
abbrev DiskPlace := List (List UInt8)

/-- The files and directories below a working directory. -/
structure Disk where
  /-- What stands where. Of two entries for one place the first counts. -/
  nodes : List (DiskPlace × DiskNode)
  /-- The paths under which opening a file fails. -/
  unreadable : List Path

namespace Disk

/-- The longest name. -/
def maxName : Nat := 255

/-- The longest path. -/
def maxPath : Nat := 4095

/-- An empty working directory. -/
def empty : Disk := ⟨[], []⟩

/-- What stands at a place. -/
def node? (d : Disk) (place : DiskPlace) : Option DiskNode :=
  if place = [] then some .directory else d.nodes.lookup place

/-- The place that a component leads to from a place. -/
def move (place : DiskPlace) : Path.Component → DiskPlace
  | .root | .here => place
  | .parent => place.dropLast
  | .name bytes => place ++ [bytes]

/-- The places that components lead through from a place. -/
def trail (place : DiskPlace) : List Path.Component → List DiskPlace
  | [] => []
  | c :: cs => move place c :: trail (move place c) cs

/-- Puts a file or directory where a path leads, and a directory everywhere on the way. -/
def put (d : Disk) (p : Path) (node : DiskNode) : Disk :=
  let places := trail [] p.components
  let way := places.dropLast.map fun place => (place, DiskNode.directory)
  { d with nodes := (places.getLast?.getD [], node) :: way ++ d.nodes }

/-- Makes opening fail under a path. -/
def refuse (d : Disk) (p : Path) : Disk := { d with unreadable := p :: d.unreadable }

/-- Follows the pieces of a path from a place on. -/
def follow (d : Disk) (place : DiskPlace) : List (List UInt8) → Option DiskNode
  | [] => d.node? place
  | piece :: pieces =>
      match d.node? place with
      | some .directory =>
          if piece = [] ∨ piece = [Path.dot] then d.follow place pieces
          else if piece = [Path.dot, Path.dot] then
            if place = [] then none else d.follow place.dropLast pieces
          else if piece.length ≤ maxName then d.follow (place ++ [piece]) pieces
          else none
      | _ => none

/-- Whether a path can name anything below the working directory. -/
def isUsable (p : Path) : Bool :=
  p.bytes ≠ [] && !p.bytes.contains 0 && p.bytes.length ≤ maxPath && !p.isRooted

/-- What is found under a path. -/
def find? (d : Disk) (p : Path) : Option DiskNode :=
  if isUsable p then
    let (piece, pieces) := Path.split p.bytes
    d.follow [] (piece :: pieces)
  else none

/-- Whether opening fails under a path. -/
def refuses (d : Disk) (p : Path) : Bool := d.unreadable.any fun q => q.components = p.components

/-- What the file tree shows of a file. -/
def view (d : Disk) (p : Path) : Rom.FileView :=
  match d.find? p with
  | some (.file contents) =>
      .regular contents.length (if d.refuses p then none else some contents)
  | _ => .absent

end Disk

end Chip8
