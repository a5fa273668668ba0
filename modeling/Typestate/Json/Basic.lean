import Typestate.Json.Quoted
import Typestate.Text.Decimal

/-!
# JSON values

A value keeps its scalars as they are written: numbers as numerals, texts as rows of pieces. What a
scalar means is decided by whoever reads it, so a value that nobody reads can hold a number of any
size or a text with a lone surrogate. Members keep their order, and keys may repeat.
-/

namespace Typestate

/-- A JSON value. -/
inductive Json where
  | null
  | bool (value : Bool)
  /-- A number, as its numeral. -/
  | number (numeral : List Char)
  /-- A quoted text. -/
  | string (content : Json.Quoted)
  | array (items : List Json)
  | object (members : List (Json.Quoted × Json))
  deriving Inhabited

namespace Json

/-- The value of a text. -/
def ofString (s : String) : Json := .string (Quoted.ofString s)

/-- The value of a natural number. -/
def ofNat (n : Nat) : Json := .number (Text.decimal n)

/-- The value of an integer. -/
def ofInt : Int → Json
  | .ofNat n => ofNat n
  | .negSucc n => .number ('-' :: Text.decimal (n + 1))

/-- An object from named members. -/
def ofMembers (members : List (String × Json)) : Json :=
  .object (members.map (fun m => (Quoted.ofString m.1, m.2)))

end Json

end Typestate
