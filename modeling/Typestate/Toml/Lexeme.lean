import Typestate.Text.Hex

/-!
# Lexemes of TOML

The text of a document is cut into marks, blanks, line ends, comments, quoted texts and words. A word
is a longest run of other characters; whether it is a key, a number or a date is decided by where it
stands.

## Contents

- §1 Lexemes
- §2 Quoted texts on one line
- §3 Quoted texts over several lines
- §4 The scanner
-/

namespace Typestate.Toml

/-! ## §1 Lexemes -/

/-- A lexeme of TOML. -/
inductive Lexeme where
  | dot
  | equals
  | comma
  | openBracket
  | closeBracket
  | openBrace
  | closeBrace
  /-- Spaces and tabs. -/
  | blank (width : List Char)
  /-- The end of a line. -/
  | newline
  | comment
  /-- A quoted text on one line. -/
  | text (content : List Char)
  /-- A quoted text that may run over several lines, which is no key. -/
  | longText (content : List Char)
  | word (content : List Char)
  deriving DecidableEq, Inhabited

/-- A space or a tab. -/
def isBlank (c : Char) : Bool := c == ' ' || c == '\t'

/-- A character that may stand in a comment or a quoted text: no control character but the tab. -/
def isPrintable (c : Char) : Bool := c == '\t' || (0x20 ≤ c.toNat && c.toNat != 0x7F)

/-! ## §2 On one line -/

/-- The number of a row of hexadecimal digits. -/
def hexNumber? (digits : List Char) : Option Nat :=
  digits.foldl (fun n d => n.bind (fun n => (Text.hexValue? d).map (fun v => 16 * n + v))) (some 0)

/-- The character of a code point written in hexadecimal; surrogates are none. -/
def codePoint? (digits : List Char) : Option Char :=
  (hexNumber? digits).bind (fun n =>
    if n < 0xD800 || (0xDFFF < n && n < 0x110000) then some (Char.ofNat n) else none)

/-- The character of a letter behind a backslash. -/
def escaped? (letter : Char) : Option Char :=
  if letter == 'b' then some '\x08'
  else if letter == 't' then some '\t'
  else if letter == 'n' then some '\n'
  else if letter == 'f' then some '\x0c'
  else if letter == 'e' then some '\x1b'
  else if letter == 'r' then some '\x0d'
  else if letter == '"' then some '"'
  else if letter == '\\' then some '\\'
  else none

/-- The rest of a text in double quotes: its content behind `done` (latest first), and what follows. -/
def basicText (done : List Char) : List Char → Option (List Char × List Char)
  | [] => none
  | c :: rest =>
    if c == '"' then some (done.reverse, rest)
    else if c == '\\' then
      match rest with
      | 'x' :: a :: b :: rest =>
        match codePoint? [a, b] with
        | some x => basicText (x :: done) rest
        | none => none
      | 'u' :: a :: b :: c :: d :: rest =>
        match codePoint? [a, b, c, d] with
        | some x => basicText (x :: done) rest
        | none => none
      | 'U' :: a :: b :: c :: d :: e :: f :: g :: h :: rest =>
        match codePoint? [a, b, c, d, e, f, g, h] with
        | some x => basicText (x :: done) rest
        | none => none
      | letter :: rest =>
        match escaped? letter with
        | some x => basicText (x :: done) rest
        | none => none
      | [] => none
    else if isPrintable c then basicText (c :: done) rest
    else none

/-- The rest of a text in single quotes. -/
def literalText (done : List Char) : List Char → Option (List Char × List Char)
  | [] => none
  | c :: rest =>
    if c == '\x27' then some (done.reverse, rest)
    else if isPrintable c then literalText (c :: done) rest
    else none

/-! ## §3 Over several lines -/

/-- Drops a line end at the start of a text. -/
def dropLineEnd : List Char → List Char
  | '\n' :: rest => rest
  | '\x0d' :: '\n' :: rest => rest
  | cs => cs

/-- Whether a text starts with a line end. -/
def startsLineEnd : List Char → Bool
  | '\n' :: _ => true
  | '\x0d' :: '\n' :: _ => true
  | _ => false

/-- The end of a text over several lines, right behind its three closing quotes: up to two more
quotes belong to the content. -/
def closeLong (quote : Char) (done : List Char) (rest : List Char) : List Char × List Char :=
  match rest with
  | a :: b :: more =>
    if a == quote then
      if b == quote then ((quote :: quote :: done).reverse, more)
      else ((quote :: done).reverse, b :: more)
    else (done.reverse, rest)
  | [a] => if a == quote then ((quote :: done).reverse, []) else (done.reverse, rest)
  | [] => (done.reverse, rest)

/-- The rest of a text in three double quotes. `joining` holds behind a backslash at the end of a
line, where blanks and line ends are left out up to the next other character. -/
def longBasicText (joining : Bool) (done : List Char) :
    List Char → Option (List Char × List Char)
  | [] => none
  | c :: rest =>
    if joining && (isBlank c || startsLineEnd (c :: rest)) then longBasicText true done rest
    else if c == '"' then
      match rest with
      | '"' :: '"' :: rest => some (closeLong '"' done rest)
      | _ => longBasicText false ('"' :: done) rest
    else if c == '\\' then
      if startsLineEnd (rest.dropWhile isBlank) then longBasicText true done rest
      else
        match rest with
        | 'x' :: a :: b :: rest =>
          match codePoint? [a, b] with
          | some x => longBasicText false (x :: done) rest
          | none => none
        | 'u' :: a :: b :: c :: d :: rest =>
          match codePoint? [a, b, c, d] with
          | some x => longBasicText false (x :: done) rest
          | none => none
        | 'U' :: a :: b :: c :: d :: e :: f :: g :: h :: rest =>
          match codePoint? [a, b, c, d, e, f, g, h] with
          | some x => longBasicText false (x :: done) rest
          | none => none
        | letter :: rest =>
          match escaped? letter with
          | some x => longBasicText false (x :: done) rest
          | none => none
        | [] => none
    else if isPrintable c || c == '\n' || startsLineEnd (c :: rest) then
      longBasicText false (c :: done) rest
    else none

/-- The rest of a text in three single quotes. -/
def longLiteralText (done : List Char) : List Char → Option (List Char × List Char)
  | [] => none
  | c :: rest =>
    if c == '\x27' then
      match rest with
      | '\x27' :: '\x27' :: rest => some (closeLong '\x27' done rest)
      | _ => longLiteralText ('\x27' :: done) rest
    else if isPrintable c || c == '\n' || startsLineEnd (c :: rest) then
      longLiteralText (c :: done) rest
    else none

/-! ## §4 The scanner -/

/-- The lexeme of a mark. -/
def mark? (c : Char) : Option Lexeme :=
  if c == '.' then some .dot
  else if c == '=' then some .equals
  else if c == ',' then some .comma
  else if c == '[' then some .openBracket
  else if c == ']' then some .closeBracket
  else if c == '\x7b' then some .openBrace
  else if c == '\x7d' then some .closeBrace
  else none

/-- Whether a character belongs to a word. -/
def isWordCharacter (c : Char) : Bool :=
  !(isBlank c || c == '\n' || c == '\x0d' || c == '#' || c == '"' || c == '\x27' || (mark? c).isSome)

/-- A quoted text behind its first double quote. -/
def quotedText : List Char → Option (Lexeme × List Char)
  | '"' :: '"' :: rest =>
    (longBasicText false [] (dropLineEnd rest)).map (fun r => (.longText r.1, r.2))
  | rest => (basicText [] rest).map (fun r => (.text r.1, r.2))

/-- A quoted text behind its first single quote. -/
def apostropheText : List Char → Option (Lexeme × List Char)
  | '\x27' :: '\x27' :: rest =>
    (longLiteralText [] (dropLineEnd rest)).map (fun r => (.longText r.1, r.2))
  | rest => (literalText [] rest).map (fun r => (.text r.1, r.2))

/-- The first lexeme of a text that starts with `c`, and what follows it. -/
def lexeme? (c : Char) (rest : List Char) : Option (Lexeme × List Char) :=
  match mark? c with
  | some mark => some (mark, rest)
  | none =>
    if isBlank c then some (.blank (c :: rest.takeWhile isBlank), rest.dropWhile isBlank)
    else if startsLineEnd (c :: rest) then some (.newline, dropLineEnd (c :: rest))
    else if c == '#' then
      let ends (d : Char) := d == '\n' || d == '\x0d'
      if (rest.takeWhile (fun d => !ends d)).all isPrintable then
        some (.comment, rest.dropWhile (fun d => !ends d))
      else none
    else if c == '"' then quotedText rest
    else if c == '\x27' then apostropheText rest
    else if isWordCharacter c then
      some (.word (c :: rest.takeWhile isWordCharacter), rest.dropWhile isWordCharacter)
    else none

/-- Cuts a text into lexemes, latest first behind `done`. Every lexeme takes at least one
character, so the length of the text bounds the number of steps. -/
def scan (done : List Lexeme) : Nat → List Char → Option (List Lexeme)
  | _, [] => some done.reverse
  | 0, _ :: _ => none
  | steps + 1, c :: rest =>
    match lexeme? c rest with
    | some (lexeme, rest) => scan (lexeme :: done) steps rest
    | none => none

/-- The lexemes of a text; a byte order mark at its start is left out. -/
def lexemes? (text : List Char) : Option (List Lexeme) :=
  match text with
  | '\ufeff' :: rest => scan [] rest.length rest
  | _ => scan [] text.length text

end Typestate.Toml
