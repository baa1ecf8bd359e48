/-
# The shortest decimal that reads back

Every real number near a floating point number rounds to it: those between the two midpoints to its
neighbours, the midpoints themselves iff the mantissa is even.  The shortest decimal of the number
is the point of that interval on the coarsest grid of powers of ten that meets the interval; of two
such points the nearer one, and of two equally near ones the larger.

Quantities are counted in quarters of the last binary place, so that midpoints are whole numbers.
-/
import ScriptVM.Decimal.Binary

namespace ScriptVM.Decimal

/-- The number `digits · 10 ^ exponent`. -/
structure Numeral where
  /-- The significant digits, as a number. -/
  digits : Nat
  /-- The power of ten they count. -/
  exponent : Int
deriving DecidableEq, Repr

namespace Shortest

/-- The reals that round to a number, in quarters of its last binary place. -/
structure Interval where
  /-- The lower end. -/
  low : Nat
  /-- The number itself. -/
  value : Nat
  /-- The upper end. -/
  high : Nat
  /-- Whether the ends belong to the interval. -/
  closed : Bool
deriving DecidableEq, Repr

/-- The interval of `mantissa · 2 ^ exponent`.  Below a power of two the numbers lie twice as dense,
except at the bottom of the range. -/
def interval (mantissa : Nat) (exponent : Int) : Interval where
  low := 4 * mantissa -
    (if mantissa = Binary.implicitBit ∧ Binary.leastExponent < exponent then 1 else 2)
  value := 4 * mantissa
  high := 4 * mantissa + 2
  closed := mantissa % 2 = 0

/-- A change of unit from `2 ^ binary` to `10 ^ decimal`, as a fraction of natural numbers. -/
structure Scale where
  /-- The numerator. -/
  num : Nat
  /-- The denominator. -/
  den : Nat
deriving DecidableEq, Repr

/-- The fraction `2 ^ binary / 10 ^ decimal`. -/
def scale (binary decimal : Int) : Scale where
  num := Nat.pow 2 binary.toNat * Nat.pow 10 (-decimal).toNat
  den := Nat.pow 2 (-binary).toNat * Nat.pow 10 decimal.toNat

/-- Whether `n` grid units lie in the interval. -/
def Interval.holds (i : Interval) (s : Scale) (n : Nat) : Bool :=
  if i.closed then i.low * s.num ≤ n * s.den && n * s.den ≤ i.high * s.num
  else i.low * s.num < n * s.den && n * s.den < i.high * s.num

/-- The grid point of the interval that is nearest to its value; of two, the larger. -/
def Interval.nearest? (i : Interval) (s : Scale) : Option Nat :=
  let below := i.value * s.num / s.den
  match i.holds s below, i.holds s (below + 1) with
  | true, true =>
    if i.value * s.num - below * s.den < (below + 1) * s.den - i.value * s.num then some below
    else some (below + 1)
  | true, false => some below
  | false, true => some (below + 1)
  | false, false => none

/-- Tries the grids `10 ^ decimal`, `10 ^ (decimal - 1)`, … until one meets the interval. -/
def search (i : Interval) (binary : Int) : Nat → Int → Numeral
  | 0, decimal =>
    let s := scale binary decimal
    ⟨i.value * s.num / s.den, decimal⟩
  | steps + 1, decimal =>
    match i.nearest? (scale binary decimal) with
    | some n => ⟨n, decimal⟩
    | none => search i binary steps (decimal - 1)

/-- A power of ten above every number below `2 ^ (bits + 1)`. -/
def powerAbove (bits : Int) : Int :=
  Int.fdiv ((bits + 1) * 30103) 100000 + 1

/-- How many grids are tried: seventeen digits always suffice, and `powerAbove` may start a few
places too high. -/
def gridLimit : Nat := 24

end Shortest

/-- The shortest decimal that rounds to `mantissa · 2 ^ exponent`. -/
def shortest (mantissa : Nat) (exponent : Int) : Numeral :=
  if mantissa = 0 then ⟨0, 0⟩
  else
    Shortest.search (Shortest.interval mantissa exponent) (exponent - 2) Shortest.gridLimit
      (Shortest.powerAbove (mantissa.log2 + exponent))

/-- A numeral in positional notation: no exponent, and no point without a digit after it. -/
def Numeral.positional (n : Numeral) : String :=
  let digits := Nat.toDigits 10 n.digits
  let places := (-n.exponent).toNat
  if places = 0 then
    String.ofList (digits ++ List.replicate n.exponent.toNat '0')
  else if places < digits.length then
    String.ofList (digits.take (digits.length - places) ++
      '.' :: digits.drop (digits.length - places))
  else
    String.ofList ('0' :: '.' :: List.replicate (places - digits.length) '0' ++ digits)

/-- How a number is written: the shortest decimal that reads back, in positional notation. -/
def write (x : Float) : String :=
  match Binary.decode x with
  | .nan => "NaN"
  | .infinite negative => if negative then "-inf" else "inf"
  | .finite negative mantissa exponent =>
    let text := (shortest mantissa exponent).positional
    if negative then "-" ++ text else text

end ScriptVM.Decimal
