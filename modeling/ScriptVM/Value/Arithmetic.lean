/-
# Operators

What the operators of the language do with values.  Two integers give an integer, and leaving the
64-bit range is an error; an integer and a floating point number, or two of the latter, are computed
in floating point.  Texts can be joined and compared.
-/
import ScriptVM.Decimal.Integer
import ScriptVM.Value

namespace ScriptVM

/-- The operators that can fail. -/
inductive Operator where
  /-- Sum, or texts joined. -/
  | add
  /-- Difference. -/
  | subtract
  /-- Product. -/
  | multiply
  /-- Quotient. -/
  | divide
  /-- Strictly less. -/
  | less
  /-- Strictly greater. -/
  | greater
  /-- Change of sign. -/
  | negate
deriving DecidableEq, Repr, Inhabited

/-- How an operator is written. -/
def Operator.symbol : Operator → String
  | .add => "+"
  | .subtract => "-"
  | .multiply => "*"
  | .divide => "/"
  | .less => "<"
  | .greater => ">"
  | .negate => "-"

/-- Why an operator failed. -/
inductive ValueError where
  /-- It takes no such pair of values. -/
  | invalidOperands (op : Operator) (left right : Kind)
  /-- It takes no such value. -/
  | invalidOperand (op : Operator) (operand : Kind)
  /-- An integer was divided by zero. -/
  | divisionByZero
  /-- The result is no 64-bit integer. -/
  | overflow (op : Operator)
deriving DecidableEq, Repr, Inhabited

/-- The message about a failed operator. -/
def ValueError.message : ValueError → String
  | .invalidOperands op left right =>
    s!"Cannot apply '{op.symbol}' to {left.name} and {right.name}"
  | .invalidOperand op operand => s!"Cannot apply '{op.symbol}' to {operand.name}"
  | .divisionByZero => "Division by zero"
  | .overflow op => s!"Integer overflow in '{op.symbol}'"

namespace Value

/-- A number as a floating point number; integers are rounded to the nearest. -/
def toFloat? : Value → Option Float
  | .int i => some (Float.ofInt i.toInt)
  | .number x => some x
  | _ => none

/-- A result that has to be a 64-bit integer. -/
def checked (op : Operator) (n : Int) : Except ValueError Value :=
  match Decimal.int64? n with
  | some i => .ok (.int i)
  | none => .error (.overflow op)

/-- Two numbers combined by an operator that knows integers and floating point numbers. -/
def arithmetic (op : Operator) (ints : Int → Int → Int) (floats : Float → Float → Float) :
    Value → Value → Except ValueError Value
  | .int a, .int b => checked op (ints a.toInt b.toInt)
  | a, b =>
    match a.toFloat?, b.toFloat? with
    | some x, some y => .ok (.number (floats x y))
    | _, _ => .error (.invalidOperands op a.kind b.kind)

/-- Two numbers or two texts compared. -/
def compare (op : Operator) (ints : Int → Int → Bool) (texts : String → String → Bool)
    (floats : Float → Float → Bool) : Value → Value → Except ValueError Value
  | .int a, .int b => .ok (.bool (ints a.toInt b.toInt))
  | .string a, .string b => .ok (.bool (texts a b))
  | a, b =>
    match a.toFloat?, b.toFloat? with
    | some x, some y => .ok (.bool (floats x y))
    | _, _ => .error (.invalidOperands op a.kind b.kind)

/-- The sum of two numbers, or two texts joined. -/
def add : Value → Value → Except ValueError Value
  | .string a, .string b => .ok (.string (a ++ b))
  | a, b => arithmetic .add (· + ·) (· + ·) a b

/-- The difference of two numbers. -/
def subtract (a b : Value) : Except ValueError Value :=
  arithmetic .subtract (· - ·) (· - ·) a b

/-- The product of two numbers. -/
def multiply (a b : Value) : Except ValueError Value :=
  arithmetic .multiply (· * ·) (· * ·) a b

/-- The quotient of two numbers; that of two integers is cut off toward zero. -/
def divide : Value → Value → Except ValueError Value
  | .int a, .int b =>
    if b = 0 then .error .divisionByZero else checked .divide (Int.tdiv a.toInt b.toInt)
  | a, b => arithmetic .divide Int.tdiv (· / ·) a b

/-- Whether one number or text is less than another. -/
def less (a b : Value) : Except ValueError Value :=
  compare .less (· < ·) (· < ·) (· < ·) a b

/-- Whether one number or text is greater than another. -/
def greater (a b : Value) : Except ValueError Value :=
  compare .greater (· > ·) (· > ·) (· > ·) a b

/-- A number with its sign changed. -/
def negate : Value → Except ValueError Value
  | .int i => checked .negate (-i.toInt)
  | .number x => .ok (.number (-x))
  | v => .error (.invalidOperand .negate v.kind)

/-- Whether a value counts as false, as a value. -/
def not (v : Value) : Value :=
  .bool v.isFalsey

end Value

end ScriptVM
