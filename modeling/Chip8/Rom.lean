import Chip8.Path
import Chip8.Memory

/-!
# Program images

What is known of a loaded program image, the ways in which loading one can fail, and the reading
of an image from what a file system shows of a file. Splitting a base name at its last dot loses
nothing (`splitExtension_append`).
-/

set_option autoImplicit false

namespace Chip8

namespace Rom

/-- The most bytes that fit between the program start and the end of memory. -/
def capacity : Nat := 3584

/-- What is known of a loaded image. -/
structure Info where
  path : String
  /-- The base name without its extension. -/
  name : String
  /-- The extension with its dot, empty if there is none. -/
  ext : String
  size : Nat
  deriving DecidableEq

/-- Splits a base name before its last dot. -/
def splitExtension : List Char → List Char × List Char
  | [] => ([], [])
  | c :: cs =>
      match splitExtension cs with
      | (name, []) => if c = '.' then ([], c :: cs) else (c :: name, [])
      | (name, ext) => (c :: name, ext)

theorem splitExtension_append (cs : List Char) :
    (splitExtension cs).1 ++ (splitExtension cs).2 = cs := by
  induction cs with
  | nil => rfl
  | cons c cs ih =>
      unfold splitExtension
      split
      · next name h =>
        rw [h] at ih
        split
        · rfl
        · simpa using ih
      · next name ext _ h =>
        rw [h] at ih
        simpa using ih

/-- What is known of an image without a file. -/
def Info.unnamed (size : Nat) : Info := ⟨"", "", "", size⟩

/-- What is known of an image in a file. -/
def Info.ofPath (p : Path) (size : Nat) : Info :=
  let (name, ext) := splitExtension p.baseName
  ⟨.ofList p.text, .ofList name, .ofList ext, size⟩

/-- Why an image was not loaded. The name is the file's base name. -/
inductive LoadError where
  /-- There is no such file, or it is no regular file. -/
  | notFound (name : String)
  /-- The file could not be opened or read. -/
  | unreadable (name : String)
  /-- The image is empty or does not fit into memory. -/
  | badSize (name : String) (size : Nat)
  deriving DecidableEq

namespace LoadError

/-- The text of a failure. -/
def message : LoadError → String
  | notFound name => "ROM " ++ name ++ " was not found"
  | unreadable name => "ROM " ++ name ++ " could not be opened for reading"
  | badSize name size =>
      "ROM " ++ name ++ " has an invalid size of " ++ toString size ++ " bytes, expected 1 to "
        ++ toString capacity

/-- The status word of a failure. -/
def status : LoadError → String
  | notFound _ => "FileNotFound"
  | unreadable _ => "FileNotGood"
  | badSize _ _ => "InvalidFileSize"

end LoadError

/-- Whether an image of a size can be loaded. -/
def fits (size : Nat) : Bool := 1 ≤ size && size ≤ capacity

/-- Refuses an image of a size that does not fit. -/
def checkSize (name : String) (size : Nat) : Except LoadError Unit :=
  if fits size then .ok () else .error (.badSize name size)

theorem checkSize_eq_ok_iff {name : String} {size : Nat} :
    checkSize name size = .ok () ↔ 1 ≤ size ∧ size ≤ capacity := by
  unfold checkSize fits
  split <;> simp_all

/-- What a file system shows under a path. -/
inductive FileView where
  /-- No regular file. -/
  | absent
  /-- A regular file of a size, and its contents unless opening or reading it fails. The contents
  may differ from the size when the file changes in between. -/
  | regular (size : Nat) (contents : Option (List UInt8))

/-- The image in a file. The size that the file system reports is checked before the file is opened,
and the size of what was read after it. -/
def image (name : String) : FileView → Except LoadError (List UInt8)
  | .absent => .error (.notFound name)
  | .regular size contents => do
      checkSize name size
      match contents with
      | none => .error (.unreadable name)
      | some bytes =>
          checkSize name bytes.length
          return bytes

end Rom

end Chip8
