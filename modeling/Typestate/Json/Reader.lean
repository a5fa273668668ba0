import Typestate.Json.Lexeme

/-!
# Reading JSON documents

A document is read lexeme by lexeme with a stack of the arrays and objects that are still open. The
stack lives in a value, not in nested calls, so documents may nest as deeply as they like.

## Contents

- §1 `Frame` and `Cursor`: where the reader stands
- §2 One step, and a whole document
-/

namespace Typestate.Json

/-! ## §1 Where the reader stands -/

/-- An array or object that is still open. What it holds so far is kept latest first. -/
inductive Frame where
  /-- An array whose next item is being read. -/
  | array (done : List Json)
  /-- An object whose member `key` is being read. -/
  | object (done : List (Quoted × Json)) (key : Quoted)

/-- What may come next. -/
inductive Cursor where
  /-- A value. -/
  | value (outer : List Frame)
  /-- Right behind `[`: a value or the end of the array. -/
  | itemOrEnd (outer : List Frame)
  /-- Right behind the opening of an object: a key or the end of the object. -/
  | keyOrEnd (outer : List Frame)
  /-- A key. -/
  | key (done : List (Quoted × Json)) (outer : List Frame)
  /-- The colon behind a key. -/
  | colon (done : List (Quoted × Json)) (key : Quoted) (outer : List Frame)
  /-- A value has been read; what follows belongs to the innermost open frame. -/
  | closed (v : Json) (outer : List Frame)

/-! ## §2 Steps -/

/-- A value starts. -/
def startValue (outer : List Frame) : Lexeme → Option Cursor
  | .null => some (.closed .null outer)
  | .bool b => some (.closed (.bool b) outer)
  | .number n => some (.closed (.number n) outer)
  | .string s => some (.closed (.string s) outer)
  | .openArray => some (.itemOrEnd outer)
  | .openObject => some (.keyOrEnd outer)
  | _ => none

/-- The reader takes one lexeme. -/
def Cursor.step : Cursor → Lexeme → Option Cursor
  | .value outer, l => startValue outer l
  | .itemOrEnd outer, .closeArray => some (.closed (.array []) outer)
  | .itemOrEnd outer, l => startValue (.array [] :: outer) l
  | .keyOrEnd outer, .closeObject => some (.closed (.object []) outer)
  | .keyOrEnd outer, .string k => some (.colon [] k outer)
  | .key done outer, .string k => some (.colon done k outer)
  | .colon done k outer, .colon => some (.value (.object done k :: outer))
  | .closed v (.array done :: outer), .comma => some (.value (.array (v :: done) :: outer))
  | .closed v (.array done :: outer), .closeArray => some (.closed (.array (v :: done).reverse) outer)
  | .closed v (.object done k :: outer), .comma => some (.key ((k, v) :: done) outer)
  | .closed v (.object done k :: outer), .closeObject =>
    some (.closed (.object ((k, v) :: done).reverse) outer)
  | _, _ => none

/-- The reader takes lexemes one after the other. -/
def Cursor.run (cursor : Cursor) : List Lexeme → Option Cursor
  | [] => some cursor
  | l :: rest =>
    match cursor.step l with
    | some next => next.run rest
    | none => none

/-- The value of a row of lexemes that is exactly one document. -/
def ofLexemes? (lexemes : List Lexeme) : Option Json :=
  match (Cursor.value []).run lexemes with
  | some (.closed v []) => some v
  | _ => none

/-- The value of a text that is exactly one document. -/
def parse? (text : String) : Option Json := (lexemes? text.toList).bind ofLexemes?

end Typestate.Json
