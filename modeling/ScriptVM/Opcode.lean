/-
# The instruction set

An instruction is an opcode byte followed by its operand bytes.  The opcodes are numbered in the
order of `Opcode.all`; number zero is never emitted, so that stray code fails at once.

Main statements: `ofByte?` and `toByte` are inverse to each other (`ofByte?_toByte`,
`toByte_of_ofByte?`).
-/

namespace ScriptVM

/-- The operations of the machine. -/
inductive Opcode where
  /-- Never emitted. -/
  | uninitialized
  /-- Pushes a constant. -/
  | constant
  /-- Leaves the current call with the value on top. -/
  | ret
  /-- Negates a number. -/
  | negate
  /-- Replaces a value by whether it counts as false. -/
  | not
  /-- Adds numbers, joins texts. -/
  | add
  /-- Subtracts numbers. -/
  | subtract
  /-- Multiplies numbers. -/
  | multiply
  /-- Divides numbers. -/
  | divide
  /-- Compares for equality. -/
  | equal
  /-- Compares for inequality. -/
  | notEqual
  /-- Compares for less. -/
  | less
  /-- Compares for greater. -/
  | greater
  /-- Pushes `true`. -/
  | pushTrue
  /-- Pushes `false`. -/
  | pushFalse
  /-- Prints the description of the value on top. -/
  | print
  /-- Drops the value on top. -/
  | pop
  /-- Defines a global variable. -/
  | defineGlobal
  /-- Reads a global variable. -/
  | getGlobal
  /-- Assigns a global variable. -/
  | setGlobal
  /-- Reads a stack slot of the current call. -/
  | getLocal
  /-- Assigns a stack slot of the current call. -/
  | setLocal
  /-- Reads a captured variable. -/
  | getUpvalue
  /-- Assigns a captured variable. -/
  | setUpvalue
  /-- Jumps forward. -/
  | jump
  /-- Jumps forward if the value on top counts as false. -/
  | jumpIfFalse
  /-- Jumps backward. -/
  | loop
  /-- Calls a value. -/
  | call
  /-- Makes a closure and captures its variables. -/
  | closure
  /-- Drops the value on top, which a closure may have captured. -/
  | closeUpvalue
  /-- Makes a class. -/
  | newClass
  /-- Reads a property of an instance. -/
  | getProperty
  /-- Assigns a field of an instance. -/
  | setProperty
  /-- Adds a method to a class. -/
  | method
  /-- Calls a property of an instance. -/
  | invoke
  /-- Copies the members of a superclass. -/
  | inherit
  /-- Reads a property through the superclass. -/
  | getSuper
  /-- Calls a method of the superclass. -/
  | invokeSuper
  /-- Pushes `nil`. -/
  | pushNil
  /-- Makes an array of the values on top. -/
  | arrayLiteral
  /-- Adds a computed property to a class. -/
  | computedProperty
deriving DecidableEq, Repr, Inhabited

namespace Opcode

/-- The opcodes in the order of their numbers. -/
def all : Array Opcode :=
  #[.uninitialized, .constant, .ret, .negate, .not, .add, .subtract, .multiply, .divide, .equal,
    .notEqual, .less, .greater, .pushTrue, .pushFalse, .print, .pop, .defineGlobal, .getGlobal,
    .setGlobal, .getLocal, .setLocal, .getUpvalue, .setUpvalue, .jump, .jumpIfFalse, .loop, .call,
    .closure, .closeUpvalue, .newClass, .getProperty, .setProperty, .method, .invoke, .inherit,
    .getSuper, .invokeSuper, .pushNil, .arrayLiteral, .computedProperty]

/-- The byte of an opcode. -/
def toByte (op : Opcode) : UInt8 :=
  UInt8.ofNat op.ctorIdx

/-- The opcode of a byte, if the byte is one. -/
def ofByte? (byte : UInt8) : Option Opcode :=
  all[byte.toNat]?

@[simp] theorem ofByte?_toByte (op : Opcode) : ofByte? op.toByte = some op := by
  cases op <;> rfl

/-- The opcode at a place of `all` has the number of that place. -/
theorem toByte_getElem? (n : Fin 256) :
    ((all[n.val]?).map toByte).getD (UInt8.ofNat n) = UInt8.ofNat n := by
  revert n
  decide +kernel

/-- A byte that is an opcode is the byte of that opcode. -/
theorem toByte_of_ofByte? {byte : UInt8} {op : Opcode} (h : ofByte? byte = some op) :
    op.toByte = byte := by
  have hn := toByte_getElem? ⟨byte.toNat, byte.toNat_lt⟩
  simp only [ofByte?] at h
  simpa [h] using hn

/-- The name of an opcode in listings. -/
def name : Opcode → String
  | .uninitialized => "Uninitialized"
  | .constant => "Constant"
  | .ret => "Return"
  | .negate => "Negate"
  | .not => "Not"
  | .add => "Add"
  | .subtract => "Subtract"
  | .multiply => "Multiply"
  | .divide => "Divide"
  | .equal => "Equal"
  | .notEqual => "NotEqual"
  | .less => "Less"
  | .greater => "Greater"
  | .pushTrue => "True"
  | .pushFalse => "False"
  | .print => "Print"
  | .pop => "Pop"
  | .defineGlobal => "DefineGlobal"
  | .getGlobal => "GetGlobal"
  | .setGlobal => "SetGlobal"
  | .getLocal => "GetLocal"
  | .setLocal => "SetLocal"
  | .getUpvalue => "GetUpvalue"
  | .setUpvalue => "SetUpvalue"
  | .jump => "Jump"
  | .jumpIfFalse => "JumpIfFalse"
  | .loop => "Loop"
  | .call => "Call"
  | .closure => "Closure"
  | .closeUpvalue => "CloseUpvalue"
  | .newClass => "Class"
  | .getProperty => "GetProperty"
  | .setProperty => "SetProperty"
  | .method => "Method"
  | .invoke => "Invoke"
  | .inherit => "Inherit"
  | .getSuper => "GetSuper"
  | .invokeSuper => "InvokeSuper"
  | .pushNil => "Nil"
  | .arrayLiteral => "ArrayLiteral"
  | .computedProperty => "ComputedProperty"

/-- The opcode with this name. -/
def ofName? (name : String) : Option Opcode :=
  all.find? (·.name = name)

/-- What follows an opcode byte. -/
inductive Operands where
  /-- Nothing. -/
  | none
  /-- The index of a constant. -/
  | constant
  /-- A slot, an index or a count. -/
  | byte
  /-- A forward distance of two bytes. -/
  | forward
  /-- A backward distance of two bytes. -/
  | backward
  /-- The index of a name and a number of arguments. -/
  | invocation
  /-- The index of a function, then a pair of bytes for each variable it captures. -/
  | captures
deriving DecidableEq, Repr

/-- What follows each opcode. -/
def operands : Opcode → Operands
  | .uninitialized | .ret | .negate | .not | .add | .subtract | .multiply | .divide | .equal
  | .notEqual | .less | .greater | .pushTrue | .pushFalse | .print | .pop | .closeUpvalue
  | .inherit | .pushNil => .none
  | .constant | .defineGlobal | .getGlobal | .setGlobal | .newClass | .getProperty | .setProperty
  | .method | .getSuper | .computedProperty => .constant
  | .getLocal | .setLocal | .getUpvalue | .setUpvalue | .call | .arrayLiteral => .byte
  | .jump | .jumpIfFalse => .forward
  | .loop => .backward
  | .invoke | .invokeSuper => .invocation
  | .closure => .captures

/-- The number of operand bytes, without the pairs of `closure`. -/
def operandLength (op : Opcode) : Nat :=
  match op.operands with
  | .none => 0
  | .constant | .byte | .captures => 1
  | .forward | .backward | .invocation => 2

/-- The message about a byte that is no opcode. -/
def unknownMessage (byte : UInt8) : String :=
  s!"No discriminant in enum \x60Opcode\x60 matches the value \x60{byte.toNat}\x60"

end Opcode

end ScriptVM
