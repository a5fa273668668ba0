import Typestate.Json.Basic

/-!
# Lexemes of JSON

The text of a document is cut into lexemes: the six marks, quoted texts, and bare words, which are
the three constants or a numeral. Blanks (space, tab, line feed, carriage return) only separate.

A bare word is a longest run of characters that are neither blank nor mark nor quote. No two of the
constants and numerals can follow each other without something between them, so taking the longest
run refuses exactly the documents that have to be refused.

## Contents

- §1 Lexemes and bare words
- §2 The scanner
-/

namespace Typestate.Json

/-! ## §1 Lexemes -/

/-- A lexeme of JSON. -/
inductive Lexeme where
  | openArray
  | closeArray
  | openObject
  | closeObject
  | colon
  | comma
  | null
  | bool (value : Bool)
  | number (numeral : List Char)
  | string (content : Quoted)
  deriving DecidableEq, Inhabited

/-- Separating white space. -/
def isSpace (c : Char) : Bool := c == ' ' || c == '\t' || c == '\n' || c == '\x0d'

/-- The lexeme of a mark. -/
def mark? (c : Char) : Option Lexeme :=
  if c == '[' then some .openArray
  else if c == ']' then some .closeArray
  else if c == '\x7b' then some .openObject
  else if c == '\x7d' then some .closeObject
  else if c == ':' then some .colon
  else if c == ',' then some .comma
  else none

/-- A row of digits, at least one. -/
def isDigits (cs : List Char) : Bool := !cs.isEmpty && cs.all Text.isDigit

/-- Digits without a superfluous zero in front. -/
def isWhole (cs : List Char) : Bool := isDigits cs && (cs.length == 1 || cs.head? != some '0')

/-- What follows the whole part and the fraction: nothing, or an exponent with an optional sign. -/
def isExponentPart : List Char → Bool
  | [] => true
  | e :: rest =>
    (e == 'e' || e == 'E') &&
      match rest with
      | s :: digits => isDigits (if s == '+' || s == '-' then digits else s :: digits)
      | [] => false

/-- What follows the whole part: an optional fraction, then an optional exponent. -/
def isFractionPart : List Char → Bool
  | '.' :: rest =>
    isDigits (rest.takeWhile Text.isDigit) && isExponentPart (rest.dropWhile Text.isDigit)
  | rest => isExponentPart rest

/-- A numeral: optional minus, whole part, optional fraction, optional exponent. -/
def isNumeral (cs : List Char) : Bool :=
  let unsigned := match cs with
    | '-' :: rest => rest
    | _ => cs
  isWhole (unsigned.takeWhile Text.isDigit) && isFractionPart (unsigned.dropWhile Text.isDigit)

/-- The lexeme of a bare word. -/
def word? (cs : List Char) : Option Lexeme :=
  if cs == ['n', 'u', 'l', 'l'] then some .null
  else if cs == ['t', 'r', 'u', 'e'] then some (.bool true)
  else if cs == ['f', 'a', 'l', 's', 'e'] then some (.bool false)
  else if isNumeral cs then some (.number cs)
  else none

/-! ## §2 The scanner -/

/-- Where the scanner stands between two characters. What has been read is kept latest first. -/
inductive Scan where
  /-- Between lexemes. -/
  | between
  /-- Inside a bare word. -/
  | word (done : List Char)
  /-- Inside a quoted text. -/
  | quoted (done : Quoted)
  /-- Right behind a backslash. -/
  | escape (done : Quoted)
  /-- Inside the digits of a code unit. -/
  | unit (done : Quoted) (digits : List Char)
  deriving Inhabited

/-- The scanner between lexemes reads a character. -/
def scanBetween (lexemes : List Lexeme) (c : Char) : Scan × List Lexeme :=
  if isSpace c then (.between, lexemes)
  else if c == '"' then (.quoted [], lexemes)
  else
    match mark? c with
    | some mark => (.between, mark :: lexemes)
    | none => (.word [c], lexemes)

/-- The scanner reads a character. Lexemes are kept latest first. -/
def scanStep : Scan → List Lexeme → Char → Option (Scan × List Lexeme)
  | .between, lexemes, c => some (scanBetween lexemes c)
  | .word done, lexemes, c =>
    if isSpace c || c == '"' || (mark? c).isSome then
      (word? done.reverse).map (fun w => scanBetween (w :: lexemes) c)
    else
      some (.word (c :: done), lexemes)
  | .quoted done, lexemes, c =>
    if c == '"' then some (.between, .string done.reverse :: lexemes)
    else if c == '\\' then some (.escape done, lexemes)
    else if isControl c then none
    else some (.quoted (.char c :: done), lexemes)
  | .escape done, lexemes, c =>
    if c == 'u' then some (.unit done [], lexemes)
    else (escaped? c).map (fun e => (.quoted (.char e :: done), lexemes))
  | .unit done digits, lexemes, d =>
    match digits with
    | [c, b, a] => (unitOfDigits? a b c d).map (fun u => (.quoted (.unit u :: done), lexemes))
    | _ => (Text.hexValue? d).map (fun _ => (.unit done (d :: digits), lexemes))

/-- The scanner reads a text to its end, where only a bare word may still be open. -/
def scanFrom (scan : Scan) (lexemes : List Lexeme) : List Char → Option (List Lexeme)
  | [] =>
    match scan with
    | .between => some lexemes.reverse
    | .word done => (word? done.reverse).map (fun w => (w :: lexemes).reverse)
    | _ => none
  | c :: rest =>
    match scanStep scan lexemes c with
    | some (scan, lexemes) => scanFrom scan lexemes rest
    | none => none

/-- The lexemes of a text. -/
def lexemes? (text : List Char) : Option (List Lexeme) := scanFrom .between [] text

end Typestate.Json
