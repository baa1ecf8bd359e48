/-
# Values

The values of the language.  Numbers, texts and arrays are what they are; functions, closures,
classes and instances are references into a heap, and two references are the same thing iff they
have the same number.

`Value.equals` is the language's equality.  An integer equals a floating point number iff the latter
is exactly that integer, and a number that is not a number equals nothing.
-/
import ScriptVM.Decimal.Binary
import ScriptVM.Native

namespace ScriptVM

/-! ## References -/

/-- A reference to a function. -/
structure FunctionId where
  /-- Its number in the heap. -/
  index : Nat
deriving DecidableEq, Repr, Inhabited

/-- A reference to a closure. -/
structure ClosureId where
  /-- Its number in the heap. -/
  index : Nat
deriving DecidableEq, Repr, Inhabited

/-- A reference to the cell of a captured variable. -/
structure CellId where
  /-- Its number in the heap. -/
  index : Nat
deriving DecidableEq, Repr, Inhabited

/-- A reference to a class. -/
structure ClassId where
  /-- Its number in the heap. -/
  index : Nat
deriving DecidableEq, Repr, Inhabited

/-- A reference to an instance. -/
structure InstanceId where
  /-- Its number in the heap. -/
  index : Nat
deriving DecidableEq, Repr, Inhabited

/-! ## Values and their kinds -/

/-- The values of the language. -/
inductive Value where
  /-- The value of a variable without an initial value. -/
  | nil
  /-- A truth value. -/
  | bool (b : Bool)
  /-- An integer. -/
  | int (i : Int64)
  /-- A floating point number. -/
  | number (x : Float)
  /-- A text. -/
  | string (text : String)
  /-- A list of values that never changes. -/
  | array (elements : List Value)
  /-- A compiled function. -/
  | functionRef (id : FunctionId)
  /-- A function with its captured variables. -/
  | closureRef (id : ClosureId)
  /-- A class. -/
  | classRef (id : ClassId)
  /-- An instance of a class. -/
  | instanceRef (id : InstanceId)
  /-- A method together with the instance it was read from. -/
  | bound (receiver : InstanceId) (method : ClosureId)
  /-- A native function. -/
  | native (function : Native)
deriving Inhabited

/-- The kinds of values that messages tell apart. -/
inductive Kind where
  /-- The kind of `nil`. -/
  | nil
  /-- Truth values. -/
  | bool
  /-- Integers. -/
  | int
  /-- Floating point numbers. -/
  | number
  /-- Texts. -/
  | string
  /-- Arrays. -/
  | array
  /-- Functions and closures. -/
  | function
  /-- Classes. -/
  | classKind
  /-- Instances. -/
  | instanceKind
  /-- Bound methods. -/
  | bound
  /-- Native functions. -/
  | native
deriving DecidableEq, Repr, Inhabited

/-- What messages call a kind. -/
def Kind.name : Kind → String
  | .nil => "nil"
  | .bool => "bool"
  | .int => "int"
  | .number => "number"
  | .string => "string"
  | .array => "array"
  | .function => "function"
  | .classKind => "class"
  | .instanceKind => "instance"
  | .bound => "bound method"
  | .native => "native function"

namespace Value

/-- The kind of a value. -/
def kind : Value → Kind
  | .nil => .nil
  | .bool _ => .bool
  | .int _ => .int
  | .number _ => .number
  | .string _ => .string
  | .array _ => .array
  | .functionRef _ => .function
  | .closureRef _ => .function
  | .classRef _ => .classKind
  | .instanceRef _ => .instanceKind
  | .bound _ _ => .bound
  | .native _ => .native

/-- Whether a value counts as false in a condition. -/
def isFalsey : Value → Bool
  | .nil => true
  | .bool b => !b
  | _ => false

/-- The text that a value is, if it is one. -/
def text? : Value → Option String
  | .string text => some text
  | _ => none

/-- The function that a value refers to, if it does. -/
def function? : Value → Option FunctionId
  | .functionRef id => some id
  | _ => none

/-! ## Equality -/

/-- Whether a floating point number is exactly this integer. -/
def intEqualsNumber (i : Int64) (x : Float) : Bool :=
  Decimal.exactInt? x = some i.toInt

mutual

/-- Whether two values are equal in the language. -/
def equals : Value → Value → Bool
  | .nil, .nil => true
  | .bool a, .bool b => a == b
  | .int a, .int b => a == b
  | .number a, .number b => a == b
  | .int a, .number b => intEqualsNumber a b
  | .number a, .int b => intEqualsNumber b a
  | .string a, .string b => a == b
  | .array a, .array b => equalsList a b
  | .functionRef a, .functionRef b => a == b
  | .closureRef a, .closureRef b => a == b
  | .classRef a, .classRef b => a == b
  | .instanceRef a, .instanceRef b => a == b
  | .bound a m, .bound b n => a == b && m == n
  | .native a, .native b => a == b
  | _, _ => false

/-- Whether two lists of values are equal element by element. -/
def equalsList : List Value → List Value → Bool
  | [], [] => true
  | a :: as, b :: bs => equals a b && equalsList as bs
  | _, _ => false

end

/-- Whether one of two constants can stand for the other: they are equal, and not an integer and a
floating point number. -/
def sameConstant : Value → Value → Bool
  | .int _, .number _ => false
  | .number _, .int _ => false
  | a, b => equals a b

end Value

end ScriptVM
