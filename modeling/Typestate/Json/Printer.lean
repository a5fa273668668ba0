import Typestate.Json.Basic

/-!
# Writing JSON documents

The layout puts every item and every member on a line of its own, two spaces further in than the
bracket that holds it. Empty arrays and objects stay on one line. The compact layout has no blanks.
-/

namespace Typestate.Json

/-- The start of a line `depth` levels in. -/
def lineStart (depth : Nat) : List Char := '\n' :: List.replicate (2 * depth) ' '

mutual

/-- A value as written `depth` levels in. -/
def write (depth : Nat) : Json → List Char
  | .null => "null".toList
  | .bool true => "true".toList
  | .bool false => "false".toList
  | .number n => n
  | .string s => s.write
  | .array [] => ['[', ']']
  | .array (v :: vs) =>
    '[' :: (lineStart (depth + 1) ++ write (depth + 1) v ++ writeItems (depth + 1) vs ++
      lineStart depth ++ [']'])
  | .object [] => ['\x7b', '\x7d']
  | .object ((k, v) :: ms) =>
    '\x7b' :: (lineStart (depth + 1) ++ k.write ++ [':', ' '] ++ write (depth + 1) v ++
      writeMembers (depth + 1) ms ++ lineStart depth ++ ['\x7d'])

/-- The items behind the first, each on its own line. -/
def writeItems (depth : Nat) : List Json → List Char
  | [] => []
  | v :: vs => ',' :: (lineStart depth ++ write depth v ++ writeItems depth vs)

/-- The members behind the first, each on its own line. -/
def writeMembers (depth : Nat) : List (Quoted × Json) → List Char
  | [] => []
  | (k, v) :: ms =>
    ',' :: (lineStart depth ++ k.write ++ [':', ' '] ++ write depth v ++ writeMembers depth ms)

end

/-- The document of a value, one item to a line. -/
def pretty (v : Json) : String := String.ofList (write 0 v)

mutual

/-- A value as written without blanks. -/
def writeCompact : Json → List Char
  | .null => "null".toList
  | .bool true => "true".toList
  | .bool false => "false".toList
  | .number n => n
  | .string s => s.write
  | .array [] => ['[', ']']
  | .array (v :: vs) => '[' :: (writeCompact v ++ writeCompactItems vs ++ [']'])
  | .object [] => ['\x7b', '\x7d']
  | .object ((k, v) :: ms) =>
    '\x7b' :: (k.write ++ [':'] ++ writeCompact v ++ writeCompactMembers ms ++ ['\x7d'])

/-- The items behind the first. -/
def writeCompactItems : List Json → List Char
  | [] => []
  | v :: vs => ',' :: (writeCompact v ++ writeCompactItems vs)

/-- The members behind the first. -/
def writeCompactMembers : List (Quoted × Json) → List Char
  | [] => []
  | (k, v) :: ms => ',' :: (k.write ++ [':'] ++ writeCompact v ++ writeCompactMembers ms)

end

/-- The document of a value on one line. -/
def compact (v : Json) : String := String.ofList (writeCompact v)

end Typestate.Json
