/-
# Binary numbers, exactly

A 64-bit binary floating point number is not a number, an infinity, or `± mantissa · 2 ^ exponent`.
`Binary.decode` reads the three parts off the bit pattern, so that everything said about a number's
exact value is said in whole numbers.
-/

namespace ScriptVM.Decimal

/-- What a floating point number stands for. -/
inductive Binary where
  /-- Not a number. -/
  | nan
  /-- An infinity. -/
  | infinite (negative : Bool)
  /-- The number `± mantissa · 2 ^ exponent`; a zero has a sign too. -/
  | finite (negative : Bool) (mantissa : Nat) (exponent : Int)
deriving DecidableEq, Repr

namespace Binary

/-- The exponent of the smallest positive number. -/
def leastExponent : Int := -1074

/-- The mantissa bit above the stored ones, which every number but the smallest has. -/
def implicitBit : Nat := Nat.pow 2 52

/-- The number of values of the exponent field. -/
def fieldSize : Nat := Nat.pow 2 11

/-- Reads the sign, the exponent field and the mantissa field of a number. -/
def decode (x : Float) : Binary :=
  let bits := x.toBits.toNat
  let negative := bits / Nat.pow 2 63 = 1
  let field := bits / implicitBit % fieldSize
  let fraction := bits % implicitBit
  if field = fieldSize - 1 then
    if fraction = 0 then .infinite negative else .nan
  else if field = 0 then .finite negative fraction leastExponent
  else .finite negative (implicitBit + fraction) (leastExponent + (field - 1 : Nat))

/-- The whole number that equals `mantissa · 2 ^ exponent`, if there is one. -/
def wholePart? (mantissa : Nat) (exponent : Int) : Option Nat :=
  if 0 ≤ exponent then some (mantissa * Nat.pow 2 exponent.toNat)
  else
    let unit := Nat.pow 2 (-exponent).toNat
    if mantissa % unit = 0 then some (mantissa / unit) else none

/-- The integer that a number is equal to, if there is one. -/
def toInt? : Binary → Option Int
  | .finite negative mantissa exponent =>
    (wholePart? mantissa exponent).map fun n => if negative then -(n : Int) else n
  | _ => none

end Binary

/-- The integer that `x` is equal to, without rounding, if there is one. -/
def exactInt? (x : Float) : Option Int :=
  (Binary.decode x).toInt?

end ScriptVM.Decimal
