import Typestate.Files.Path

/-!
# File trees

A file tree is a finite set of files with their texts, and a current directory. The directories are
those on the way to a file and those on the way to the current directory. Reading follows a path step
by step from the root or from the current directory.
-/

namespace Typestate

/-- Why a file cannot be read. -/
inductive ReadFault where
  | notFound
  | isDirectory
  | notDirectory
  | nameTooLong
  deriving DecidableEq

/-- The text of a fault. -/
def ReadFault.message : ReadFault → String
  | notFound => "No such file or directory (os error 2)"
  | isDirectory => "Is a directory (os error 21)"
  | notDirectory => "Not a directory (os error 20)"
  | nameTooLong => "File name too long (os error 36)"

/-- The fault that a number of the system stands for. -/
def ReadFault.ofNumber? (number : UInt32) : Option ReadFault :=
  if number == 2 then some .notFound
  else if number == 20 then some .notDirectory
  else if number == 21 then some .isDirectory
  else if number == 36 then some .nameTooLong
  else none

/-- The steps from the root to a place. -/
abbrev Place := List (List Char)

/-- Files with their texts, and a current directory. -/
structure FileTree where
  files : List (Place × String)
  current : Place

namespace FileTree

/-- The text of the file at a place. -/
def file? (t : FileTree) (place : Place) : Option String :=
  (t.files.find? (fun f => f.1 == place)).map (·.2)

/-- Whether there is a directory at a place. -/
def isDirectory (t : FileTree) (place : Place) : Bool :=
  place.isPrefixOf t.current || t.files.any (fun f => place.isPrefixOf f.1 && place != f.1)

/-- How many bytes a name may take. -/
def nameLimit : Nat := 255

/-- How many bytes a path may take. -/
def pathLimit : Nat := 4095

/-- Follows segments from a place. Anything but the last step has to lead into a directory. -/
def follow (t : FileTree) (place : Place) : List (List Char) → Except ReadFault Place
  | [] => .ok place
  | segment :: rest =>
    if (t.file? place).isSome then .error .notDirectory
    else if !t.isDirectory place then .error .notFound
    else if Path.isIdle segment then t.follow place rest
    else if segment == ['.', '.'] then t.follow place.dropLast rest
    else if nameLimit < Path.byteCount segment then .error .nameTooLong
    else t.follow (place ++ [segment]) rest

/-- The text of the file at a path. -/
def read (t : FileTree) (p : Path) : Except ReadFault String :=
  if p.isEmpty then .error .notFound
  else if pathLimit < Path.byteCount p.toString.toList then .error .nameTooLong
  else do
    let place ← t.follow (if p.anchor == .root then [] else t.current) p.segments
    match t.file? place with
    | some text => .ok text
    | none => if t.isDirectory place then .error .isDirectory else .error .notFound

/-- Whether there is a file at a path. -/
def isFile (t : FileTree) (p : Path) : Bool :=
  match t.read p with
  | .ok _ => true
  | .error _ => false

end FileTree

end Typestate
