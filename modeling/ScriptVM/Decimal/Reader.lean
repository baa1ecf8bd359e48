/-
# Reading numbers

The written forms of a floating point number: an optional sign, then `inf`, `infinity` or `nan` in
any case, or a numeral with digits before or after an optional point and an optional exponent.  The
value is the number nearest to the numeral.  An integer is a list of digits.
-/
import ScriptVM.Decimal.Integer

namespace ScriptVM.Decimal

/-- The number that a list of decimal digits stands for. -/
def ofDigits (digits : List Char) : Nat :=
  digits.foldl (fun n c => 10 * n + (c.toNat - '0'.toNat)) 0

/-- A power of ten above every finite floating point number, and whose inverse is below half of the
smallest positive one. -/
def powerLimit : Int := 400

/-- The floating point number nearest to `digits · 10 ^ exponent`.  Far outside the range that is an
infinity or zero, whatever the digits. -/
def nearest (digits : Nat) (exponent : Int) : Float :=
  if digits = 0 ∨ exponent + digits.log2 < -powerLimit then 0.0
  else if powerLimit < exponent then 1.0 / 0.0
  else Float.ofScientific digits (exponent < 0) exponent.natAbs

/-- Splits an optional sign off: whether it was a minus, and the rest. -/
def takeSign : List Char → Bool × List Char
  | '-' :: rest => (true, rest)
  | '+' :: rest => (false, rest)
  | rest => (false, rest)

/-- The exponent that the text after a numeral's digits stands for. -/
def readExponent : List Char → Option Int
  | [] => some 0
  | c :: rest =>
    if c = 'e' || c = 'E' then
      let (negative, digits) := takeSign rest
      if digits.isEmpty || !digits.all Char.isDigit then none
      else some (if negative then -(ofDigits digits : Int) else ofDigits digits)
    else none

/-- Splits a fraction off: the digits after a point, and the rest. -/
def takeFraction : List Char → List Char × List Char
  | '.' :: rest => (rest.takeWhile Char.isDigit, rest.dropWhile Char.isDigit)
  | rest => ([], rest)

/-- Reads a numeral without a sign. -/
def readNumeral (text : List Char) : Option Float := do
  let whole := text.takeWhile Char.isDigit
  let (fraction, rest) := takeFraction (text.dropWhile Char.isDigit)
  if whole.isEmpty && fraction.isEmpty then none
  let exponent ← readExponent rest
  some (nearest (ofDigits (whole ++ fraction)) (exponent - fraction.length))

/-- Reads what follows the sign of a number. -/
def readMagnitude (text : List Char) : Option Float :=
  let lower := String.ofList (text.map Char.toLower)
  if lower = "inf" || lower = "infinity" then some (1.0 / 0.0)
  else if lower = "nan" then some (0.0 / 0.0)
  else readNumeral text

/-- Reads a floating point number. -/
def read (text : String) : Option Float :=
  let (negative, magnitude) := takeSign text.toList
  (readMagnitude magnitude).map fun x => if negative then -x else x

/-- Reads a list of digits as a 64-bit integer. -/
def readInt (text : String) : Option Int64 :=
  let digits := text.toList
  if digits.isEmpty || !digits.all Char.isDigit then none
  else int64? (ofDigits digits)

end ScriptVM.Decimal
