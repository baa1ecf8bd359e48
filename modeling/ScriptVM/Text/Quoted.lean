/-
# Quoted text

The quoted form of a text: double quotes around it, short escapes for the usual controls, and the
code point in braces for every character that is not printable.
-/
import ScriptVM.Text.Printable

namespace ScriptVM.Text

/-- The lower case hexadecimal digits of `n`. -/
def hexadecimal (n : Nat) : String :=
  String.ofList (Nat.toDigits 16 n)

/-- How a quoted text shows one character. -/
def quoteChar (c : Char) : String :=
  if c = '\x00' then "\\0"
  else if c = '\t' then "\\t"
  else if c = '\r' then "\\r"
  else if c = '\n' then "\\n"
  else if c = '"' then "\\\""
  else if c = '\\' then "\\\\"
  else if isPrintable c then c.toString
  else "\\u\x7b" ++ hexadecimal c.toNat ++ "\x7d"

/-- The quoted form of a text. -/
def quote (text : String) : String :=
  "\"" ++ String.join (text.toList.map quoteChar) ++ "\""

end ScriptVM.Text
