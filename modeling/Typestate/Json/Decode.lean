import Typestate.Json.Reader

/-!
# Typed reading of JSON values

Small readers from which the readers of records are put together. A record may be written as an
object, whose members come in any order and may be joined by members that nobody knows, or as an
array of its fields in their declared order, from whose end fields with a default may be missing.

## Contents

- §1 `Fault`: why a value is refused
- §2 Scalars and lists
- §3 Records
-/

namespace Typestate.Json

/-! ## §1 Faults -/

/-- Why a text or a value is refused. -/
inductive Fault where
  /-- The text is not exactly one document. -/
  | document
  /-- A value has the wrong shape. -/
  | shape (expected : String)
  /-- A required field is absent. -/
  | missing (field : String)
  /-- A known field occurs more than once. -/
  | repeated (field : String)
  /-- An array has more elements than the record has fields. -/
  | excess (limit : Nat)
  deriving DecidableEq

/-- The text of a fault. -/
def Fault.message : Fault → String
  | document => "the text is not a JSON document"
  | shape expected => "expected " ++ expected
  | missing field => "missing field `" ++ field ++ "`"
  | repeated field => "duplicate field `" ++ field ++ "`"
  | excess limit => "expected at most " ++ toString limit ++ " elements"

/-- The value of a text that is exactly one document. -/
def parse (text : String) : Except Fault Json :=
  match parse? text with
  | some v => .ok v
  | none => .error .document

/-! ## §2 Scalars and lists -/

/-- The text of a quoted value. -/
def readString : Json → Except Fault String
  | .string q =>
    match q.decode? with
    | some s => .ok s
    | none => .error (.shape "a text without lone surrogates")
  | _ => .error (.shape "a string")

/-- A natural number below `bound`, written as a plain row of digits. -/
def readNat (bound : Nat) : Json → Except Fault Nat
  | .number n =>
    match Text.ofDecimal? n with
    | some k => if k < bound then .ok k else .error (.shape "a number in range")
    | none => .error (.shape "an unsigned integer")
  | _ => .error (.shape "an unsigned integer")

/-- A 32-bit word. -/
def readWord32 (v : Json) : Except Fault UInt32 := (readNat UInt32.size v).map UInt32.ofNat

/-- A 64-bit word. -/
def readWord64 (v : Json) : Except Fault UInt64 := (readNat UInt64.size v).map UInt64.ofNat

/-- A list, item by item. -/
def readList {α : Type} (read : Json → Except Fault α) : Json → Except Fault (List α)
  | .array items => items.mapM read
  | _ => .error (.shape "an array")

/-- A value that may be absent, in which case `null` is written. -/
def readOption {α : Type} (read : Json → Except Fault α) : Json → Except Fault (Option α)
  | .null => .ok none
  | v => (read v).map some

/-! ## §3 Records -/

/-- The fields of a record that are present. -/
structure Fields where
  present : List (String × Json)

namespace Fields

/-- A member with its key decoded. -/
def member (m : Quoted × Json) : Except Fault (String × Json) :=
  match m.1.decode? with
  | some key => .ok (key, m.2)
  | none => .error (.shape "a key without lone surrogates")

/-- How often a field is present. -/
def count (name : String) (present : List (String × Json)) : Nat :=
  (present.filter (fun m => m.1 == name)).length

/-- The fields of a record whose declared fields are `names`. -/
def ofJson (names : List String) : Json → Except Fault Fields
  | .object members => do
    let present ← members.mapM member
    match names.find? (fun name => 1 < count name present) with
    | some name => .error (.repeated name)
    | none => .ok ⟨present⟩
  | .array items =>
    if items.length ≤ names.length then .ok ⟨names.zip items⟩ else .error (.excess names.length)
  | _ => .error (.shape "an object or an array of fields")

/-- The value of a field. -/
def get? (f : Fields) (name : String) : Option Json :=
  (f.present.find? (fun m => m.1 == name)).map (·.2)

/-- A field that has to be there. -/
def required {α : Type} (f : Fields) (name : String) (read : Json → Except Fault α) :
    Except Fault α :=
  match f.get? name with
  | some v => read v
  | none => .error (.missing name)

/-- A field that stands for `absent` when it is not there. -/
def withDefault {α : Type} (f : Fields) (name : String) (absent : α)
    (read : Json → Except Fault α) : Except Fault α :=
  match f.get? name with
  | some v => read v
  | none => .ok absent

end Fields

end Typestate.Json
