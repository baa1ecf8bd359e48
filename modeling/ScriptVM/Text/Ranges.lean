/-
# Membership in ascending ranges

A set of code points is written as an ascending list of closed ranges; the search stops at the
first range that starts above the code point, so small code points are decided at once.
-/

namespace ScriptVM.Text

/-- Whether `n` lies in one of the closed ranges, which are given in ascending order. -/
def inRanges : List (Nat × Nat) → Nat → Bool
  | [], _ => false
  | (low, high) :: rest, n =>
    if n < low then false else if n ≤ high then true else inRanges rest n

end ScriptVM.Text
