import Typestate.Toml.Value

/-!
# Building TOML tables

Headers and assignments add to the tables of a document under rules that keep every table in one
piece: a key is assigned once, a table is opened by one header, and a table that is complete (in
braces), or was spelled out by dotted keys, or was opened by a header, is not added to by the other
means.

## Contents

- §1 Entries
- §2 Walking along a path
- §3 Assignments and headers
-/

namespace Typestate.Toml

/-! ## §1 Entries -/

/-- The value of a key. -/
def lookup (key : String) (entries : List (String × Toml)) : Option Toml :=
  (entries.find? (fun e => e.1 == key)).map (·.2)

/-- The entries with a key set, at its old place or else at the end. -/
def set (key : String) (value : Toml) : List (String × Toml) → List (String × Toml)
  | [] => [(key, value)]
  | e :: rest => if e.1 == key then (key, value) :: rest else e :: set key value rest

/-! ## §2 Walking -/

/-- Changes a table; an array of tables stands for its latest element. -/
def focus (change : Origin → List (String × Toml) → Option Toml) : Toml → Option Toml
  | .table origin entries => change origin entries
  | .tables (.table origin entries :: earlier) =>
    (change origin entries).map (fun t => .tables (t :: earlier))
  | _ => none

/-- Whether a step of a path may not enter a value: nothing enters a table in braces, and a dotted
key does not enter a table that a header opened. -/
def isClosed (dotted : Bool) : Toml → Bool
  | .table .inline _ => true
  | .table .explicit _ => dotted
  | _ => false

/-- Changes the table at the end of a path. Tables on the way are made where they are missing. -/
def walk (dotted : Bool) (change : Origin → List (String × Toml) → Option Toml) :
    List String → Toml → Option Toml
  | [] => focus change
  | key :: path =>
    focus (fun origin entries =>
      let child := (lookup key entries).getD (.table (if dotted then .dotted else .implicit) [])
      if isClosed dotted child then none
      else (walk dotted change path child).map (fun t => .table origin (set key t entries)))

/-! ## §3 Assignments and headers -/

/-- Adds a new key to a table. A dotted key ends in a table made by dotted keys, a plain one does
not. -/
def addEntry (dotted : Bool) (key : String) (value : Toml) (origin : Origin)
    (entries : List (String × Toml)) : Option Toml :=
  if (origin == .dotted) != dotted then none
  else if (lookup key entries).isSome then none
  else some (.table origin (entries ++ [(key, value)]))

/-- Assigns a value to a possibly dotted key of a table. -/
def assign (path : List String) (key : String) (value : Toml) (table : Toml) : Option Toml :=
  walk (!path.isEmpty) (addEntry (!path.isEmpty) key value) path table

/-- Assigns a value inside the table that a header opened. -/
def assignUnder (header : List String) (path : List String) (key : String) (value : Toml)
    (document : Toml) : Option Toml :=
  walk false (fun origin entries => assign path key value (.table origin entries)) header document

/-- Opens the table of a header. -/
def openTable (path : List String) (key : String) (document : Toml) : Option Toml :=
  walk false
    (fun origin entries =>
      match lookup key entries with
      | none => some (.table origin (entries ++ [(key, .table .explicit [])]))
      | some (.table .implicit inner) => some (.table origin (set key (.table .explicit inner) entries))
      | some _ => none)
    path document

/-- Adds a table to the array of a header. -/
def openElement (path : List String) (key : String) (document : Toml) : Option Toml :=
  walk false
    (fun origin entries =>
      match lookup key entries with
      | none => some (.table origin (entries ++ [(key, .tables [.table .explicit []])]))
      | some (.tables elements) =>
        some (.table origin (set key (.tables (.table .explicit [] :: elements)) entries))
      | some _ => none)
    path document

end Typestate.Toml
