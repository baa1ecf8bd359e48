/-
# Lines of a text

A text is cut into lines at each line feed; a carriage return right before the line feed belongs to
the line end.  What stands after the last line feed is a line of its own unless it is empty.
-/
import ScriptVM.Text.Ranges

namespace ScriptVM.Text

/-- The characters that count as blank at the ends of a line. -/
def blanks : List (Nat × Nat) :=
  [(0x9, 0xD), (0x20, 0x20), (0x85, 0x85), (0xA0, 0xA0), (0x1680, 0x1680), (0x2000, 0x200A),
   (0x2028, 0x2029), (0x202F, 0x202F), (0x205F, 0x205F), (0x3000, 0x3000)]

/-- Whether a character is blank. -/
def isBlank (c : Char) : Bool :=
  inRanges blanks c.toNat

/-- A text without the blanks at its two ends. -/
def trim (text : String) : String :=
  String.ofList ((text.toList.dropWhile isBlank).reverse.dropWhile isBlank).reverse

/-- A line, given with its last character first, without the carriage return of its line end. -/
def endLine : List Char → List Char
  | '\r' :: rest => rest.reverse
  | pending => pending.reverse

/-- The lines of a list of characters; `pending` holds the open line, last character first. -/
def linesFrom (done : Array String) (pending : List Char) : List Char → Array String
  | [] => if pending.isEmpty then done else done.push (String.ofList pending.reverse)
  | c :: rest =>
    if c = '\n' then linesFrom (done.push (String.ofList (endLine pending))) [] rest
    else linesFrom done (c :: pending) rest

/-- The lines of a text. -/
def lines (text : String) : List String :=
  (linesFrom #[] [] text.toList).toList

/-- The text of line `number`, counted from one, without the blanks around it. -/
def lineAt (text : String) (number : Nat) : String :=
  trim ((lines text)[number - 1]?.getD "")

end ScriptVM.Text
