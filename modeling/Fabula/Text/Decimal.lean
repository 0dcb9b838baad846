import Fabula.Text.Numeral

/-!
# Decimal fractions

Reading a signed decimal with an optional fraction and an optional exponent,
exactly, and rounding it to the nearest floating-point number.
-/

namespace Fabula.Text

/--
The number that `digits` stand for, times ten to the power `exponent`,
possibly negative.  The first digit is not zero; zero has no digits.
-/
structure Decimal where
  negative : Bool
  digits : List Char
  exponent : Int
deriving DecidableEq, Repr

namespace Decimal

/-- Read a sign: whether it is a minus, and what follows it. -/
def readSign : List Char → Bool × List Char
  | '-' :: rest => (true, rest)
  | '+' :: rest => (false, rest)
  | text => (false, text)

/-- Digits without the zeros before them. -/
def significant (digits : List Char) : List Char :=
  digits.dropWhile (· == '0')

/--
The value of the digits of an exponent.  Only the first eighteen count: no
text is long enough to make up for an exponent with more of them.
-/
def exponentValue (digits : List Char) : Int :=
  Int.ofNat (digitsValue ((significant digits).take 18))

/-- Read an exponent part: nothing, or a letter `e`, a sign and at least one digit. -/
def readExponent? : List Char → Option Int
  | [] => some 0
  | letter :: rest =>
      if letter == 'e' || letter == 'E' then
        let (negative, digits) := readSign rest
        if !digits.isEmpty && digits.all Char.isDigit then
          some (if negative then -exponentValue digits else exponentValue digits)
        else
          none
      else
        none

/--
Read an optional sign, digits with an optional point somewhere before, among
or after them, and an optional exponent.  At least one digit must stand
before the exponent.
-/
def read? (text : List Char) : Option Decimal :=
  let (negative, unsigned) := readSign text
  let whole := unsigned.takeWhile Char.isDigit
  let (fraction, rest) :=
    match unsigned.dropWhile Char.isDigit with
    | '.' :: after => (after.takeWhile Char.isDigit, after.dropWhile Char.isDigit)
    | after => ([], after)
  if whole.isEmpty && fraction.isEmpty then
    none
  else
    (readExponent? rest).map fun exponent =>
      { negative
        digits := significant (whole ++ fraction)
        exponent := exponent - Int.ofNat fraction.length }

/--
A decimal point further than this from the first digit puts a number beyond
the floating-point range, at either end.
-/
def farthestPoint : Int := 400

/--
Two floating-point numbers next to each other, and what lies halfway between
them, have fewer digits than this.
-/
def decisiveDigits : Nat := 800

/--
A decimal with few digits that is rounded like this one.  Of the digits behind
the decisive ones it matters only whether any of them is not zero.
-/
def shorten (decimal : Decimal) : Decimal :=
  let kept := decimal.digits.take decisiveDigits
  let dropped := decimal.digits.drop decisiveDigits
  let tail := if dropped.all (· == '0') then [] else ['1']
  { decimal with
    digits := kept ++ tail
    exponent := decimal.exponent + dropped.length - tail.length }

/-- The magnitude of a decimal, rounded to the nearest floating-point number. -/
def magnitude (decimal : Decimal) : Float :=
  let point := decimal.digits.length + decimal.exponent
  if decimal.digits.isEmpty || point < -farthestPoint then
    0.0
  else if point > farthestPoint then
    1.0 / 0.0
  else
    let short := decimal.shorten
    Float.ofScientific (digitsValue short.digits) (short.exponent < 0) short.exponent.natAbs

/-- The floating-point number nearest to a decimal; a zero keeps its sign. -/
def toFloat (decimal : Decimal) : Float :=
  if decimal.negative then -decimal.magnitude else decimal.magnitude

end Decimal

end Fabula.Text
