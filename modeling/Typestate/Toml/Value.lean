import Typestate.Text.Decimal
import Typestate.Text.Hex

/-!
# TOML values

A value of a TOML document, and the reading of words as booleans, numbers and dates. Dates are only
checked: nothing here computes with them. Of a floating-point number it is kept whether it is small
enough for a double.

## Contents

- §1 The type
- §2 Integers
- §3 Floating-point numbers
- §4 Dates and times
- §5 Words
-/

namespace Typestate

/-! ## §1 The type -/

/-- How a table came to be, which decides who may add to it. -/
inductive Toml.Origin where
  /-- By a header of its own, or the document itself. -/
  | explicit
  /-- As a step on the way to the table of a header. -/
  | implicit
  /-- As a step of a dotted key. -/
  | dotted
  /-- Written in braces, and complete. -/
  | inline
  deriving DecidableEq, Inhabited

/-- A TOML value. -/
inductive Toml where
  | string (content : String)
  | integer (value : Int)
  /-- A floating-point number, and whether a double can hold it. -/
  | float (fits : Bool)
  | boolean (value : Bool)
  /-- A date, a time of day, or both. -/
  | moment
  /-- An array written in brackets. -/
  | array (items : List Toml)
  /-- An array that headers add tables to, latest first. -/
  | tables (elements : List Toml)
  | table (origin : Toml.Origin) (entries : List (String × Toml))
  deriving Inhabited

namespace Toml

/-! ## §2 Integers -/

/-- The digits of a numeral whose underscores each stand between two digits. -/
def digits? (isDigit : Char → Bool) : List Char → Option (List Char)
  | [] => none
  | [d] => if isDigit d then some [d] else none
  | d :: '_' :: rest => if isDigit d then (digits? isDigit rest).map (d :: ·) else none
  | d :: rest => if isDigit d then (digits? isDigit rest).map (d :: ·) else none

/-- The number of a row of digits in some base. -/
def numberIn (base : Nat) (digits : List Char) : Nat :=
  digits.foldl (fun n d => base * n + (Text.hexValue? d).getD 0) 0

/-- A digit of some base. -/
def isDigitIn (base : Nat) (c : Char) : Bool := (Text.hexValue? c).any (· < base)

/-- Decimal digits without a superfluous zero in front. -/
def wholeDigits? (cs : List Char) : Option (List Char) :=
  (digits? Text.isDigit cs).bind (fun ds =>
    if ds.length == 1 || ds.head? != some '0' then some ds else none)

/-- The sign in front of a word, and the rest of it. -/
def splitSign : List Char → Option Char × List Char
  | '+' :: rest => (some '+', rest)
  | '-' :: rest => (some '-', rest)
  | cs => (none, cs)

/-- A decimal integer with an optional sign, or an unsigned one in base 16, 8 or 2. -/
def integer? : List Char → Option Int
  | '0' :: 'x' :: rest => (digits? (isDigitIn 16) rest).map (fun ds => Int.ofNat (numberIn 16 ds))
  | '0' :: 'o' :: rest => (digits? (isDigitIn 8) rest).map (fun ds => Int.ofNat (numberIn 8 ds))
  | '0' :: 'b' :: rest => (digits? (isDigitIn 2) rest).map (fun ds => Int.ofNat (numberIn 2 ds))
  | cs =>
    let (sign, unsigned) := splitSign cs
    (wholeDigits? unsigned).map (fun ds =>
      let n := Int.ofNat (Text.numeralValue ds)
      if sign == some '-' then -n else n)

/-! ## §3 Floating-point numbers -/

/-- The least number that rounds to more than the largest double: half a step beyond it. -/
def doubleBound : Nat := Nat.pow 2 1024 - Nat.pow 2 970

/-- Whether a double can hold `significand · 10 ^ exponent` once rounded. Beyond 400 places the
exponent alone decides. -/
def fitsDouble (significand : Nat) (exponent : Int) : Bool :=
  significand == 0 ||
    let places := Int.ofNat (Text.decimal significand).length + exponent
    if 400 < places then false
    else if places < 0 then true
    else if 0 ≤ exponent then significand * Nat.pow 10 exponent.toNat < doubleBound
    else significand < doubleBound * Nat.pow 10 (-exponent).toNat

/-- The exponent behind `e`: an optional sign and digits. -/
def exponent? (cs : List Char) : Option Int :=
  let (sign, unsigned) := splitSign cs
  (digits? Text.isDigit unsigned).map (fun ds =>
    let n := Int.ofNat (Text.numeralValue ds)
    if sign == some '-' then -n else n)

/-- Whether a character starts an exponent. -/
def isExponentMark (c : Char) : Bool := c == 'e' || c == 'E'

/-- A floating-point number: a whole part, then a fraction or an exponent or both; or one of the
special values. Gives whether a double can hold it. -/
def float? (cs : List Char) : Option Bool :=
  let (_, unsigned) := splitSign cs
  if unsigned == ['i', 'n', 'f'] || unsigned == ['n', 'a', 'n'] then some true
  else
    let mantissa := unsigned.takeWhile (fun c => !isExponentMark c)
    let scale := unsigned.dropWhile (fun c => !isExponentMark c)
    let whole := mantissa.takeWhile (· != '.')
    let fraction := mantissa.dropWhile (· != '.')
    if scale.isEmpty && fraction.isEmpty then none
    else do
      let wholeDigits ← wholeDigits? whole
      let fractionDigits ← match fraction with
        | [] => some []
        | _ :: digits => digits? Text.isDigit digits
      let exponent ← match scale with
        | [] => some 0
        | _ :: rest => exponent? rest
      pure (fitsDouble (Text.numeralValue (wholeDigits ++ fractionDigits))
        (exponent - fractionDigits.length))

/-! ## §4 Dates and times -/

/-- The number of exactly two digits. -/
def twoDigits? (a b : Char) : Option Nat := Text.ofDecimal? [a, b]

/-- The length of a month. -/
def daysIn (year month : Nat) : Nat :=
  if month == 2 then
    if year % 4 == 0 && (year % 100 != 0 || year % 400 == 0) then 29 else 28
  else if month == 4 || month == 6 || month == 9 || month == 11 then 30
  else 31

/-- A date at the start of a word, and the rest of the word. -/
def date? : List Char → Option (List Char)
  | y1 :: y2 :: y3 :: y4 :: '-' :: m1 :: m2 :: '-' :: d1 :: d2 :: rest => do
    let year ← Text.ofDecimal? [y1, y2, y3, y4]
    let month ← twoDigits? m1 m2
    let day ← twoDigits? d1 d2
    if 1 ≤ month && month ≤ 12 && 1 ≤ day && day ≤ daysIn year month then some rest else none
  | _ => none

/-- The seconds of a time of day at the start of a word, with an optional fraction, and the rest of
the word. -/
def seconds? : List Char → Option (List Char)
  | s1 :: s2 :: rest => do
    let second ← twoDigits? s1 s2
    if second ≤ 60 then
      match rest with
      | '.' :: fraction =>
        if (fraction.takeWhile Text.isDigit).isEmpty then none
        else some (fraction.dropWhile Text.isDigit)
      | _ => some rest
    else none
  | _ => none

/-- A time of day at the start of a word, and the rest of the word. The seconds may be left out. -/
def time? : List Char → Option (List Char)
  | h1 :: h2 :: ':' :: m1 :: m2 :: rest => do
    let hour ← twoDigits? h1 h2
    let minute ← twoDigits? m1 m2
    if hour ≤ 23 && minute ≤ 59 then
      match rest with
      | ':' :: rest => seconds? rest
      | _ => some rest
    else none
  | _ => none

/-- Whether the rest of a word is an offset from universal time, or nothing. -/
def isOffset : List Char → Bool
  | [] => true
  | [z] => z == 'Z' || z == 'z'
  | [sign, h1, h2, ':', m1, m2] =>
    (sign == '+' || sign == '-') && (twoDigits? h1 h2).any (· ≤ 23) &&
      (twoDigits? m1 m2).any (· ≤ 59)
  | _ => false

/-- Whether a word is a date, a time, or a date and a time with an optional offset. -/
def isMoment (cs : List Char) : Bool :=
  match date? cs with
  | some [] => true
  | some (separator :: rest) =>
    (separator == 'T' || separator == 't' || separator == ' ') && (time? rest).any isOffset
  | none => time? cs == some []

/-! ## §5 Words -/

/-- The value of a word. -/
def ofWord? (cs : List Char) : Option Toml :=
  if cs == ['t', 'r', 'u', 'e'] then some (.boolean true)
  else if cs == ['f', 'a', 'l', 's', 'e'] then some (.boolean false)
  else if isMoment cs then some .moment
  else
    match integer? cs with
    | some n => some (.integer n)
    | none => (float? cs).map .float

end Toml

end Typestate
