import Typestate.Text.Alphanumeric
import Typestate.Text.Blank

/-!
# Normalised identifiers

A call target is named by a path such as `alloc::vec::Vec<T,A>::as_mut_ptr::h0123456789abcdef`. Its
normal form keeps the names and leaves out what varies between instances of the same function: the
blanks around the path, one hash segment at its end, and the generic arguments behind each name.

A bracket group that opens a path segment (`<X as Trait>::f`, `<impl [T]>::f`) is part of the name
and stays, with the generic arguments inside it left out.

## Contents

- §1 The hash segment
- §2 Generic arguments
- §3 The normal form
-/

namespace Typestate.Identifier

/-! ## §1 The hash segment -/

/-- A lower-case hexadecimal digit. -/
def isHashDigit (c : Char) : Bool := ('0' ≤ c && c ≤ '9') || ('a' ≤ c && c ≤ 'f')

/-- Exactly `::h` and sixteen lower-case hexadecimal digits. -/
def isHashSegment : List Char → Bool
  | ':' :: ':' :: 'h' :: digits => digits.length == 16 && digits.all isHashDigit
  | _ => false

/-- The length of a hash segment. -/
def hashSegmentLength : Nat := 19

/-- The path without the hash segment at its end, if there is one. -/
def dropHash (path : List Char) : List Char :=
  let kept := path.length - hashSegmentLength
  if isHashSegment (path.drop kept) then path.take kept else path

/-! ## §2 Generic arguments -/

/-- Whether a bracket right after this character opens generic arguments. -/
def isNameCharacter (c : Char) : Bool := Text.isAlphanumeric c || c == '_'

/--
The path without its generic arguments. `depth` counts the open brackets of the group being left
out, and `previous` is the character just read. A `>` right after `-` is the arrow of a function
type and closes nothing.
-/
def dropGenerics (depth : Nat) (previous : Option Char) : List Char → List Char
  | [] => []
  | c :: rest =>
    match depth with
    | 0 =>
      if c == '<' && previous.any isNameCharacter then
        dropGenerics 1 (some c) rest
      else
        c :: dropGenerics 0 (some c) rest
    | inner + 1 =>
      if c == '<' then
        dropGenerics (inner + 2) (some c) rest
      else if c == '>' && previous != some '-' then
        dropGenerics inner (some c) rest
      else
        dropGenerics (inner + 1) (some c) rest

/-! ## §3 The normal form -/

/-- The normal form of a path, as characters. -/
def normalizeChars (path : List Char) : List Char :=
  dropGenerics 0 none (dropHash (Text.trim path))

/-- The normal form of a path. -/
def normalize (path : String) : String := String.ofList (normalizeChars path.toList)

end Typestate.Identifier
