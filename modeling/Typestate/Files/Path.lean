/-!
# Paths

A path is what precedes its first segment (nothing, the root, or a leading dot for the current
directory) and the segments between its slashes, as written. Empty segments and dots mean nothing,
but they stay in the text of the path. Everything here is about the text; no file is looked at.

## Contents

- §1 Paths and their texts
- §2 Parents and ancestors
-/

namespace Typestate

/-! ## §1 Paths -/

/-- What precedes the first segment. -/
inductive Path.Anchor where
  | nothing
  /-- A slash. -/
  | root
  /-- A dot, alone or in front of a slash. -/
  | here
  deriving DecidableEq, Inhabited

/-- A path. -/
structure Path where
  anchor : Path.Anchor
  segments : List (List Char)
  deriving DecidableEq, Inhabited

namespace Path

/-- Cuts a text at its slashes. -/
def splitSlashes : List Char → List (List Char)
  | [] => [[]]
  | c :: rest =>
    if c == '/' then [] :: splitSlashes rest
    else
      match splitSlashes rest with
      | first :: more => (c :: first) :: more
      | [] => [[c]]

/-- The path of a text. -/
def ofChars : List Char → Path
  | '/' :: rest => ⟨.root, splitSlashes rest⟩
  | ['.'] => ⟨.here, []⟩
  | '.' :: '/' :: rest => ⟨.here, splitSlashes ('/' :: rest)⟩
  | cs => ⟨.nothing, splitSlashes cs⟩

/-- The path of a text. -/
def ofString (s : String) : Path := ofChars s.toList

/-- The anchor as written. -/
def Anchor.write : Anchor → List Char
  | .nothing => []
  | .root => ['/']
  | .here => ['.']

/-- The path as written. -/
def toString (p : Path) : String :=
  String.ofList (p.anchor.write ++ List.intercalate ['/'] p.segments)

/-- The number of bytes that a text takes. -/
def byteCount (cs : List Char) : Nat := cs.foldl (fun n c => n + c.utf8Size) 0

/-- The path of the current directory. -/
def here : Path := ⟨.here, []⟩

/-! ## §2 Parents -/

/-- A segment that means nothing. -/
def isIdle (segment : List Char) : Bool := segment == [] || segment == ['.']

/-- The segments without idle ones at the end. -/
def trimIdle (segments : List (List Char)) : List (List Char) :=
  (segments.reverse.dropWhile isIdle).reverse

/-- The path without its last meaningful segment; the root and the empty path have no parent. -/
def parent? (p : Path) : Option Path :=
  match trimIdle p.segments with
  | [] =>
    match p.anchor with
    | .here => some ⟨.nothing, []⟩
    | .root | .nothing => none
  | segments => some ⟨p.anchor, trimIdle segments.dropLast⟩

/-- Whether nothing is written. -/
def isEmpty (p : Path) : Bool := p.anchor == .nothing && (p.segments == [] || p.segments == [[]])

/-- The path and its parents, at most `count` of them. -/
def ancestorsUpTo : Nat → Path → List Path
  | 0, p => [p]
  | count + 1, p =>
    match p.parent? with
    | some parent => p :: ancestorsUpTo count parent
    | none => [p]

/-- The path and all its parents. Every parent has fewer segments, and a leading dot counts as one. -/
def ancestors (p : Path) : List Path := ancestorsUpTo (p.segments.length + 1) p

/-- A file in the directory at the path. A slash at the end of the path is not doubled. -/
def child (p : Path) (name : String) : Path :=
  match p.anchor, p.segments with
  | .here, [] => ⟨.here, [[], name.toList]⟩
  | anchor, segments =>
    if segments.getLast? == some [] then ⟨anchor, segments.dropLast ++ [name.toList]⟩
    else ⟨anchor, segments ++ [name.toList]⟩

/-- The directory that a file lies in, by its path alone. -/
def directory (p : Path) : Path :=
  match p.parent? with
  | some parent => if parent.isEmpty then here else parent
  | none => here

end Path

end Typestate
