import Typestate.Text.Hex

/-!
# Quoted texts of JSON

Between its quotes a JSON text is a row of pieces: characters, written plainly or with a
two-character escape, and code units written `\uXXXX`. A code unit alone need not be a character;
two of them may stand for one. Which text the pieces stand for is therefore a question of its own,
and it has no answer when a surrogate stands alone.

## Contents

- §1 Pieces and the text they stand for
- §2 The pieces of a text
- §3 Writing pieces
-/

namespace Typestate.Json

open Text (hexDigit hexValue?)

/-! ## §1 Pieces -/

/-- One piece of a quoted text. -/
inductive Piece where
  /-- A character. -/
  | char (c : Char)
  /-- A code unit, written with four hexadecimal digits. -/
  | unit (code : UInt16)
  deriving DecidableEq, Inhabited

/-- The content of a quoted text. -/
abbrev Quoted := List Piece

/-- The first half of a surrogate pair. -/
def isHighSurrogate (u : UInt16) : Bool := 0xD800 ≤ u.toNat && u.toNat ≤ 0xDBFF

/-- The second half of a surrogate pair. -/
def isLowSurrogate (u : UInt16) : Bool := 0xDC00 ≤ u.toNat && u.toNat ≤ 0xDFFF

/-- The character that a surrogate pair stands for. -/
def pairedCharacter (high low : UInt16) : Char :=
  Char.ofNat (0x10000 + (high.toNat - 0xD800) * 0x400 + (low.toNat - 0xDC00))

/-- The characters behind `done` (latest first) and the remaining pieces. -/
def Quoted.decodeFrom (done : List Char) : Quoted → Option (List Char)
  | [] => some done.reverse
  | .char c :: rest => decodeFrom (c :: done) rest
  | .unit u :: rest =>
    if isHighSurrogate u then
      match rest with
      | .unit v :: rest =>
        if isLowSurrogate v then decodeFrom (pairedCharacter u v :: done) rest else none
      | _ => none
    else if isLowSurrogate u then none
    else decodeFrom (Char.ofNat u.toNat :: done) rest

/-- The text that the pieces stand for; none when a surrogate stands alone. -/
def Quoted.decode? (q : Quoted) : Option String := (Quoted.decodeFrom [] q).map String.ofList

/-! ## §2 The pieces of a text -/

/-- The two-character escapes: the letter behind the backslash and the character meant. -/
def shortEscapes : List (Char × Char) :=
  [('"', '"'), ('\\', '\\'), ('b', '\x08'), ('f', '\x0c'), ('n', '\n'), ('r', '\x0d'), ('t', '\t')]

/-- The escape letter of a character that is written with one. -/
def escapeLetter? (c : Char) : Option Char := (shortEscapes.find? (fun e => e.2 == c)).map (·.1)

/-- The character that an escape letter stands for. A slash may be escaped but never needs to be. -/
def escaped? (letter : Char) : Option Char :=
  if letter == '/' then some '/' else (shortEscapes.find? (fun e => e.1 == letter)).map (·.2)

/-- Whether a character may not stand plainly in a quoted text. -/
def isControl (c : Char) : Bool := c.toNat < 0x20

/-- The piece of a character: a code unit for a control character without an escape letter. -/
def Piece.ofChar (c : Char) : Piece :=
  if isControl c && (escapeLetter? c).isNone then .unit c.toNat.toUInt16 else .char c

/-- The pieces of a text. -/
def Quoted.ofString (s : String) : Quoted := s.toList.map Piece.ofChar

/-! ## §3 Writing -/

/-- The code unit of four hexadecimal digits. -/
def unitOfDigits? (a b c d : Char) : Option UInt16 := do
  let a ← hexValue? a
  let b ← hexValue? b
  let c ← hexValue? c
  let d ← hexValue? d
  pure (((a * 16 + b) * 16 + c) * 16 + d).toUInt16

/-- A code unit as written. -/
def writeUnit (n : Nat) : List Char :=
  ['\\', 'u', hexDigit (n / 4096 % 16), hexDigit (n / 256 % 16), hexDigit (n / 16 % 16),
    hexDigit (n % 16)]

/-- A piece as written: an escape letter where there is one, a code unit for any other control. -/
def Piece.write : Piece → List Char
  | .unit u => writeUnit u.toNat
  | .char c =>
    match escapeLetter? c with
    | some letter => ['\\', letter]
    | none => if isControl c then writeUnit c.toNat else [c]

/-- A quoted text as written, quotes included. -/
def Quoted.write (q : Quoted) : List Char := '"' :: (q.flatMap Piece.write ++ ['"'])

end Typestate.Json
