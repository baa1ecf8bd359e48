/-
# Integers of 64 bits

The integers that the language computes with, as a part of all integers.
-/

namespace ScriptVM.Decimal

/-- Whether an integer has 64 bits. -/
def fits64 (n : Int) : Bool :=
  Int64.minValue.toInt ≤ n && n ≤ Int64.maxValue.toInt

/-- The 64-bit integer `n`, if it is one. -/
def int64? (n : Int) : Option Int64 :=
  if fits64 n then some (Int64.ofInt n) else none

end ScriptVM.Decimal
