/-
# What native functions do

A native function either has its result at once or needs the description of a value first, which may
take a while: describing an instance runs code.  `Purpose` says what becomes of a description.
-/
import ScriptVM.Machine.Fault
import ScriptVM.Value.Text

namespace ScriptVM

/-- What a description is for. -/
inductive Purpose where
  /-- It is printed on a line of its own. -/
  | print
  /-- It is written as it is, and `nil` is the result. -/
  | write
  /-- It is the result itself. -/
  | text
deriving DecidableEq, Repr, Inhabited

namespace Purpose

/-- What is written once the description is complete. -/
def output? (description : String) : Purpose → Option String
  | .print => some (description ++ "\n")
  | .write => some description
  | .text => none

/-- The value that the description leaves behind. -/
def result? (description : String) : Purpose → Option Value
  | .print => none
  | .write => some .nil
  | .text => some (.string description)

end Purpose

/-- What a native function does with its arguments. -/
inductive Native.Effect where
  /-- It has a result. -/
  | result (value : Value)
  /-- It needs the description of a value. -/
  | describe (value : Value) (purpose : Purpose)

namespace Native

/-- A copy of an array with one more element. -/
def appended (array element : Value) : Except RuntimeError Effect :=
  match array with
  | .array elements => .ok (.result (.array (elements ++ [element])))
  | other => .error (.invalidArgument .append .array other.kind)

/-- What a native function does with its arguments at a time. -/
def effect (now : Float) (arguments : List Value) : Native → Except RuntimeError Effect
  | .clock => .ok (.result (.number now))
  | .write => .ok (.describe (arguments.headD .nil) .write)
  | .append => appended (arguments.headD .nil) (arguments.tail.headD .nil)
  | .describe => .ok (.describe (arguments.headD .nil) .text)

/-- Calls a native function where values are described by how they are shown: the result, and what
was written. -/
def call (heap : Heap) (now : Float) (arguments : List Value) (function : Native) :
    Except RuntimeError (Value × String) := do
  match ← function.effect now arguments with
  | .result value => return (value, "")
  | .describe value purpose =>
    let description := value.display heap
    return ((purpose.result? description).getD .nil, (purpose.output? description).getD "")

end Native

end ScriptVM
