import Typestate.Toml.Document

/-!
# Typed reading of TOML values

A record may be written as a table, or as an array of its fields in their declared order; what an
array holds beyond the last field is not looked at. A field may have a second name. Records differ in
whether they refuse keys they do not know.

## Contents

- §1 `Fault`: why a document is refused
- §2 Scalars, lists and choices
- §3 Records
-/

namespace Typestate.Toml

/-! ## §1 Faults -/

/-- Why a text or a value is refused. -/
inductive Fault where
  /-- The text is no TOML document. -/
  | document
  /-- A value has the wrong shape. -/
  | shape (expected : String)
  /-- A key is not known. -/
  | unknown (key : String)
  /-- A field is given under both its names. -/
  | repeated (field : String)
  /-- A required field is absent. -/
  | missing (field : String)
  deriving DecidableEq

/-- The text of a fault. -/
def Fault.message : Fault → String
  | document => "the text is not a TOML document"
  | shape expected => "expected " ++ expected
  | unknown key => "unknown field `" ++ key ++ "`"
  | repeated field => "duplicate field `" ++ field ++ "`"
  | missing field => "missing field `" ++ field ++ "`"

/-- The document of a text. -/
def parse (text : String) : Except Fault Toml :=
  match parse? text with
  | some t => .ok t
  | none => .error .document

/-! ## §2 Scalars, lists and choices -/

/-- A text. -/
def readString : Toml → Except Fault String
  | .string s => .ok s
  | _ => .error (.shape "a string")

/-- A truth value. -/
def readBool : Toml → Except Fault Bool
  | .boolean b => .ok b
  | _ => .error (.shape "a boolean")

/-- An integer from `least` up to but not including `bound`. -/
def readInt (least bound : Int) : Toml → Except Fault Int
  | .integer n => if least ≤ n && n < bound then .ok n else .error (.shape "an integer in range")
  | _ => .error (.shape "an integer")

/-- The items of an array of either kind. -/
def items? : Toml → Option (List Toml)
  | .array items => some items
  | .tables elements => some elements.reverse
  | _ => none

/-- A list, item by item. -/
def readList {α : Type} (read : Toml → Except Fault α) (t : Toml) : Except Fault (List α) :=
  match items? t with
  | some items => items.mapM read
  | none => .error (.shape "an array")

/-- Whether a value holds nothing: an empty table or array. -/
def isVoid : Toml → Bool
  | .array [] => true
  | .table _ [] => true
  | _ => false

/-- A choice by name, written as the name or as a table of the name and an empty value. -/
def readChoice {α : Type} (ofName? : String → Option α) (t : Toml) : Except Fault α :=
  let name := match t with
    | .string s => some s
    | .table _ [(key, v)] => if isVoid v then some key else none
    | _ => none
  match name.bind ofName? with
  | some a => .ok a
  | none => .error (.shape "one of the known names")

mutual

/-- Whether a value that nobody asks for can be passed over: its numbers are not out of all range. -/
def isPassable : Toml → Bool
  | .integer n => -Int.ofNat (Nat.pow 2 127) ≤ n && n < Int.ofNat (Nat.pow 2 128)
  | .float fits => fits
  | .array items => allPassable items
  | .tables elements => allPassable elements
  | .table _ entries => allEntriesPassable entries
  | _ => true

/-- Whether all values of a list can be passed over. -/
def allPassable : List Toml → Bool
  | [] => true
  | t :: rest => isPassable t && allPassable rest

/-- Whether the values of all entries can be passed over. -/
def allEntriesPassable : List (String × Toml) → Bool
  | [] => true
  | (_, t) :: rest => isPassable t && allEntriesPassable rest

end

/-! ## §3 Records -/

/-- A declared field: its name, and a second name if it has one. -/
structure Field where
  name : String
  alias? : Option String

/-- Whether a key is a name of the field. -/
def Field.isNamed (f : Field) (key : String) : Bool := f.name == key || f.alias? == some key

/-- The fields of a record that are present, under their first names. -/
structure Fields where
  present : List (String × Toml)

namespace Fields

/-- The entries of a table as fields. Unknown keys are refused or passed over. -/
def ofEntries (refuseUnknown : Bool) (declared : List Field) :
    List (String × Toml) → Except Fault (List (String × Toml))
  | [] => .ok []
  | (key, v) :: rest => do
    let others ← ofEntries refuseUnknown declared rest
    match declared.find? (fun f => f.isNamed key) with
    | some f =>
      if others.any (fun o => o.1 == f.name) then .error (.repeated f.name)
      else pure ((f.name, v) :: others)
    | none =>
      if refuseUnknown then .error (.unknown key)
      else if isPassable v then pure others
      else .error (.shape "a number in range")

/-- The fields of a record. -/
def ofToml (refuseUnknown : Bool) (declared : List Field) (t : Toml) : Except Fault Fields :=
  match t with
  | .table _ entries => (ofEntries refuseUnknown declared entries).map Fields.mk
  | _ =>
    match items? t with
    | some items => .ok ⟨(declared.map (·.name)).zip items⟩
    | none => .error (.shape "a table")

/-- The value of a field. -/
def get? (f : Fields) (name : String) : Option Toml := lookup name f.present

/-- A field that has to be there. -/
def required {α : Type} (f : Fields) (name : String) (read : Toml → Except Fault α) :
    Except Fault α :=
  match f.get? name with
  | some v => read v
  | none => .error (.missing name)

/-- A field that stands for `absent` when it is not there. -/
def withDefault {α : Type} (f : Fields) (name : String) (absent : α)
    (read : Toml → Except Fault α) : Except Fault α :=
  match f.get? name with
  | some v => read v
  | none => .ok absent

end Fields

end Typestate.Toml
