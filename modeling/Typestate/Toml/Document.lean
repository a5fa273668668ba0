import Typestate.Toml.Lexeme
import Typestate.Toml.Table

/-!
# Reading TOML documents

A document is a row of lines: blank ones, headers and assignments. Each line adds to the tables read
so far. Arrays and tables in braces may run over several lines, hold comments and end in a comma; a
dotted key stays on one line. Arrays and tables in braces nest at most eighty deep, and a dotted key
has at most eighty parts.

## Contents

- §1 Blanks and keys
- §2 Values
- §3 Lines
- §4 Documents
-/

namespace Typestate.Toml

/-! ## §1 Blanks and keys -/

/-- How deep arrays and tables in braces may nest, and how many parts a dotted key may have. -/
def nestingLimit : Nat := 80

/-- Leaves out spaces and tabs. -/
def skipBlank : List Lexeme → List Lexeme
  | .blank _ :: rest => skipBlank rest
  | ls => ls

/-- Leaves out spaces, tabs, line ends and comments. -/
def skipLines : List Lexeme → List Lexeme
  | .blank _ :: rest => skipLines rest
  | .newline :: rest => skipLines rest
  | .comment :: rest => skipLines rest
  | ls => ls

/-- A character of a bare key. -/
def isBareKeyCharacter (c : Char) : Bool :=
  ('a' ≤ c && c ≤ 'z') || ('A' ≤ c && c ≤ 'Z') || ('0' ≤ c && c ≤ '9') || c == '_' || c == '-'

/-- A key, bare or quoted. -/
def key? : Lexeme → Option String
  | .word cs => if cs.all isBareKeyCharacter then some (String.ofList cs) else none
  | .text cs => some (String.ofList cs)
  | _ => none

/-- A dotted key at the start of a row of lexemes: the keys before the last, the last, and what
follows. Blanks around the dots and behind the key are left out. -/
def keyPath (before : List String) : List Lexeme → Option (List String × String × List Lexeme)
  | [] => none
  | .blank _ :: rest => keyPath before rest
  | l :: rest =>
    match if before.length < nestingLimit then key? l else none with
    | none => none
    | some key =>
      match rest with
      | .dot :: rest => keyPath (before ++ [key]) rest
      | .blank _ :: .dot :: rest => keyPath (before ++ [key]) rest
      | rest => some (before, key, skipBlank rest)

/-! ## §2 Values -/

/-- The words and dots at the start of a row of lexemes, written together, and what follows. -/
def bareRun (done : List Char) : List Lexeme → List Char × List Lexeme
  | .word cs :: rest => bareRun (done ++ cs) rest
  | .dot :: rest => bareRun (done ++ ['.']) rest
  | ls => (done, ls)

/-- A value written without quotes or brackets. Behind a date, a time may follow after one space. -/
def bareValue (ls : List Lexeme) : Option (Toml × List Lexeme) :=
  let (run, rest) := bareRun [] ls
  let longer := match rest with
    | .blank [' '] :: more =>
      let (time, rest) := bareRun [] more
      if (date? run) == some [] && isMoment (run ++ ' ' :: time) then some rest else none
    | _ => none
  match longer with
  | some rest => some (.moment, rest)
  | none => (ofWord? run).map (fun v => (v, rest))

mutual

/-- A value at the start of a row of lexemes, and what follows. `depth` is how much deeper arrays and
tables may nest, and `steps` bounds the number of steps. -/
def value (depth : Nat) : Nat → List Lexeme → Option (Toml × List Lexeme)
  | 0, _ => none
  | steps + 1, ls =>
    match ls with
    | .text cs :: rest => some (.string (String.ofList cs), rest)
    | .longText cs :: rest => some (.string (String.ofList cs), rest)
    | .word _ :: _ => bareValue ls
    | .openBracket :: rest =>
      match depth with
      | 0 => none
      | inner + 1 => items inner [] steps rest
    | .openBrace :: rest =>
      match depth with
      | 0 => none
      | inner + 1 => pairs inner (.table .inline []) steps rest
    | _ => none

/-- The rest of an array, behind items kept latest first. -/
def items (depth : Nat) (done : List Toml) : Nat → List Lexeme → Option (Toml × List Lexeme)
  | 0, _ => none
  | steps + 1, ls =>
    match skipLines ls with
    | .closeBracket :: rest => some (.array done.reverse, rest)
    | ls =>
      match value depth steps ls with
      | none => none
      | some (v, rest) =>
        match skipLines rest with
        | .comma :: rest => items depth (v :: done) steps rest
        | .closeBracket :: rest => some (.array (v :: done).reverse, rest)
        | _ => none

/-- The rest of a table in braces, behind the pairs that `table` holds. -/
def pairs (depth : Nat) (table : Toml) : Nat → List Lexeme → Option (Toml × List Lexeme)
  | 0, _ => none
  | steps + 1, ls =>
    match skipLines ls with
    | .closeBrace :: rest => some (table, rest)
    | ls =>
      match keyPath [] ls with
      | none => none
      | some (path, key, rest) =>
        match skipLines rest with
        | .equals :: rest =>
          match value depth steps (skipLines rest) with
          | none => none
          | some (v, rest) =>
            match assign path key v table with
            | none => none
            | some table =>
              match skipLines rest with
              | .comma :: rest => pairs depth table steps rest
              | .closeBrace :: rest => some (table, rest)
              | _ => none
        | _ => none

end

/-! ## §3 Lines -/

/-- What is left behind a line that ends here, possibly with a comment. -/
def endOfLine (ls : List Lexeme) : Option (List Lexeme) :=
  match skipBlank ls with
  | [] => some []
  | .newline :: rest => some rest
  | .comment :: .newline :: rest => some rest
  | [.comment] => some []
  | _ => none

/-- A document being read: what has been read, and the table that assignments go to. -/
structure Reading where
  document : Toml
  header : List String

/-- Reads one line, and gives what follows it. -/
def line (r : Reading) (ls : List Lexeme) : Option (Reading × List Lexeme) :=
  match ls with
  | .newline :: rest => some (r, rest)
  | .comment :: rest => some (r, rest)
  | .openBracket :: .openBracket :: rest =>
    match keyPath [] rest with
    | some (path, key, .closeBracket :: .closeBracket :: rest) => do
      let rest ← endOfLine rest
      let document ← openElement path key r.document
      pure (⟨document, path ++ [key]⟩, rest)
    | _ => none
  | .openBracket :: rest =>
    match keyPath [] rest with
    | some (path, key, .closeBracket :: rest) => do
      let rest ← endOfLine rest
      let document ← openTable path key r.document
      pure (⟨document, path ++ [key]⟩, rest)
    | _ => none
  | ls =>
    match keyPath [] ls with
    | some (path, key, .equals :: rest) => do
      let (v, rest) ← value nestingLimit (2 * rest.length + 2) (skipBlank rest)
      let rest ← endOfLine rest
      let document ← assignUnder r.header path key v r.document
      pure (⟨document, r.header⟩, rest)
    | _ => none

/-! ## §4 Documents -/

/-- Reads lines to the end. Every line takes at least one lexeme. -/
def readLines (r : Reading) : Nat → List Lexeme → Option Toml
  | 0, ls => if (skipBlank ls).isEmpty then some r.document else none
  | steps + 1, ls =>
    match skipBlank ls with
    | [] => some r.document
    | ls =>
      match line r ls with
      | some (r, rest) => readLines r steps rest
      | none => none

/-- The document of a text. -/
def parse? (text : String) : Option Toml := do
  let ls ← lexemes? text.toList
  readLines ⟨.table .explicit [], []⟩ ls.length ls

end Typestate.Toml
