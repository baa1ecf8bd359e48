/-
# Faults

Why a run stops without a value: the program did something that the language forbids
(`RuntimeError`), or the code itself is broken (`Defect`), which compiled code never is.
-/
import ScriptVM.Opcode
import ScriptVM.Stack
import ScriptVM.Value.Arithmetic

namespace ScriptVM

/-- The kinds of objects that code refers to. -/
inductive ObjectKind where
  /-- A name. -/
  | string
  /-- A compiled function. -/
  | function
  /-- A closure. -/
  | closure
  /-- A class. -/
  | classKind
  /-- An instance. -/
  | instanceKind
deriving DecidableEq, Repr, Inhabited

/-- What messages call a kind of object. -/
def ObjectKind.name : ObjectKind → String
  | .string => "string"
  | .function => "function"
  | .closure => "closure"
  | .classKind => "class"
  | .instanceKind => "instance"

/-- What can be wrong with code. -/
inductive Defect where
  /-- A byte is no opcode. -/
  | invalidOpcode (byte : UInt8)
  /-- The opcode that is never emitted. -/
  | uninitializedInstruction
  /-- The place of the next instruction is not in the code. -/
  | invalidInstructionPointer (pointer length : Nat)
  /-- There is no constant with this index. -/
  | invalidConstant (index : UInt8)
  /-- There is no captured variable with this index. -/
  | invalidCapture (index : Nat)
  /-- An operand is missing on the stack. -/
  | stackUnderflow
  /-- An operand is of the wrong kind. -/
  | invalidTypes (expected : ObjectKind)
deriving DecidableEq, Repr, Inhabited

/-- The message about broken code. -/
def Defect.message : Defect → String
  | .invalidOpcode byte => s!"invalid opcode? {Opcode.unknownMessage byte}"
  | .uninitializedInstruction => "uninitialized instruction"
  | .invalidInstructionPointer pointer length =>
    s!"invalid instruction pointer {pointer}, max length {length}"
  | .invalidConstant index => s!"invalid constant? {index.toNat}"
  | .invalidCapture index => s!"invalid upvalue? {index}"
  | .stackUnderflow => "stack underflow?"
  | .invalidTypes expected => s!"expected a {expected.name} from the compiler"

/-- What a program can do wrong. -/
inductive RuntimeError where
  /-- The stack, the calls or the nested evaluations are exhausted. -/
  | stackOverflow
  /-- There is no such global variable. -/
  | undefinedVariable (name : String)
  /-- There is no such property. -/
  | undefinedProperty (name : String)
  /-- A call has the wrong number of arguments. -/
  | arity (expected got : UInt8)
  /-- The value cannot be called. -/
  | notCallable (kind : Kind)
  /-- Something other than an instance was asked for a property. -/
  | onlyInstancesHaveProperties
  /-- Something other than an instance was given a field. -/
  | onlyInstancesHaveFields
  /-- A method was called on something other than an instance. -/
  | onlyInstancesHaveMethods
  /-- The superclass is no class. -/
  | superclassMustBeClass
  /-- The index of an array is no integer. -/
  | invalidIndex (kind : Kind)
  /-- There is no class for array literals. -/
  | missingArrayClass
  /-- A native function was given a value of the wrong kind. -/
  | invalidArgument (function : Native) (expected got : Kind)
  /-- An operator failed. -/
  | value (e : ValueError)
deriving DecidableEq, Repr, Inhabited

/-- The message about what a program did wrong. -/
def RuntimeError.message : RuntimeError → String
  | .stackOverflow => "Stack overflow."
  | .undefinedVariable name => s!"Undefined variable '{name}'."
  | .undefinedProperty name => s!"Undefined property '{name}'."
  | .arity expected got => s!"Expected {expected.toNat} arguments but got {got.toNat}."
  | .notCallable kind => s!"Can only call functions and classes, not {kind.name}."
  | .onlyInstancesHaveProperties => "Only instances have properties."
  | .onlyInstancesHaveFields => "Only instances have fields."
  | .onlyInstancesHaveMethods => "Only instances have methods."
  | .superclassMustBeClass => "Superclass must be a class."
  | .invalidIndex kind => s!"Array index must be an int, not {kind.name}."
  | .missingArrayClass => "Array literals need a global 'Array' class."
  | .invalidArgument function expected got =>
    s!"{function.name}() expected {expected.name}, got {got.name}."
  | .value e => e.message

/-- Why a run stopped without a value. -/
inductive Fault where
  /-- The code is broken. -/
  | internal (e : Defect)
  /-- The program did something wrong. -/
  | runtime (e : RuntimeError)
deriving DecidableEq, Repr, Inhabited

/-- The message about a fault. -/
def Fault.message : Fault → String
  | .internal e => s!"Internal error: {e.message}"
  | .runtime e => s!"Runtime error: {e.message}"

/-- The fault that a stack error is: too much is the program's doing, too little the code's. -/
def StackError.fault : StackError → Fault
  | .overflow => .runtime .stackOverflow
  | .underflow => .internal .stackUnderflow

end ScriptVM
