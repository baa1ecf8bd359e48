/-
# Padding

Texts brought to a least width by filling them on the left.
-/

namespace ScriptVM.Text

/-- Fills `text` on the left with `fill` up to `width` characters. -/
def padLeft (width : Nat) (fill : Char) (text : String) : String :=
  String.ofList (List.replicate (width - text.length) fill) ++ text

/-- A number in decimal digits, at least `width` of them. -/
def decimalPadded (width n : Nat) : String :=
  padLeft width '0' (toString n)

/-- A number in lower case hexadecimal digits, at least `width` of them. -/
def hexPadded (width n : Nat) : String :=
  padLeft width '0' (String.ofList (Nat.toDigits 16 n))

end ScriptVM.Text
