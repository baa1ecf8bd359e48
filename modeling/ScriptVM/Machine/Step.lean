/-
# Instructions

What each instruction does.  `Exec.step` reads the next opcode and does it; it gives the result of
the run when the run ends.
-/
import ScriptVM.Machine.Call

namespace ScriptVM.Exec

/-! ## Operators -/

/-- Replaces the value on top by what a function gives for it. -/
def applyUnary (f : Value → Except ValueError Value) : Exec Unit := do
  let value ← pop
  push (← ofOperator (f value))

/-- Replaces the two values on top by what an operator gives for them. -/
def applyBinary (f : Value → Value → Except ValueError Value) : Exec Unit := do
  let b ← pop
  let a ← pop
  push (← ofOperator (f a b))

/-! ## Variables -/

/-- Defines a global variable. -/
def defineGlobal : Exec Unit := do
  let name ← readName
  let value ← pop
  modify fun m => { m with globals := m.globals.insert name value }

/-- Reads a global variable. -/
def getGlobal : Exec Unit := do
  let name ← readName
  match (← get).globals.get? name with
  | some value => push value
  | none => raise (.undefinedVariable name)

/-- Assigns a global variable, which has to be defined. -/
def setGlobal : Exec Unit := do
  let name ← readName
  if !(← get).globals.contains name then raise (.undefinedVariable name)
  let value ← peek 0
  modify fun m => { m with globals := m.globals.insert name value }

/-- Reads a local variable. -/
def getLocal : Exec Unit := do
  let slot := (← readByte).toNat
  push (← getSlot ((← frame).slots + slot))

/-- Assigns a local variable. -/
def setLocal : Exec Unit := do
  let slot := (← readByte).toNat
  let base := (← frame).slots
  setSlot (base + slot) (← peek 0)

/-- Reads a captured variable. -/
def getCaptured : Exec Unit := do
  push (← getCell (← readCell))

/-- Assigns a captured variable. -/
def setCaptured : Exec Unit := do
  let id ← readCell
  setCell id (← peek 0)

/-- Drops the value on top, which may be a captured variable. -/
def dropCaptured : Exec Unit := do
  closeCells ((← get).stack.size - 1)
  let _ ← pop

/-! ## Jumps -/

/-- Jumps forward. -/
def jump : Exec Unit := do
  let distance ← readShort
  goTo ((← frame).ip + distance)

/-- Jumps forward if the value on top counts as false. -/
def jumpIfFalse : Exec Unit := do
  let distance ← readShort
  if (← peek 0).isFalsey then goTo ((← frame).ip + distance)

/-- Jumps backward. -/
def loop : Exec Unit := do
  let distance ← readShort
  let ip := (← frame).ip
  if distance ≤ ip then goTo (ip - distance)
  else defect (.invalidInstructionPointer ip (← chunk).size)

/-! ## Calls and closures -/

/-- Calls the value below the arguments. -/
def call : Exec Unit := do
  let arguments ← readByte
  callValue (← peek arguments.toNat) arguments

/-- Makes a closure. -/
def makeClosure : Exec Unit := do
  match (← readConstant).function? with
  | none => defect (.invalidTypes .function)
  | some function => do
    let f ← frame
    let around := ((← heap).closure f.closure).captures
    let count := ((← heap).function function).captureCount
    let captures ← readCaptures f.slots around #[] count
    push (.closureRef (← allocate (·.newClosure ⟨function, captures⟩)))

/-! ## Classes -/

/-- Makes a class. -/
def makeClass : Exec Unit := do
  let name ← readName
  push (.classRef (← allocate (·.newClass name)))

/-- Reads a property of the instance on top. -/
def getProperty : Exec Unit := do
  let name ← readName
  match ← peek 0 with
  | .instanceRef id => readProperty id name
  | _ => raise .onlyInstancesHaveProperties

/-- Assigns a field of the instance below the value on top. -/
def setProperty : Exec Unit := do
  let name ← readName
  let value ← pop
  match ← pop with
  | .instanceRef id => do
    modifyHeap (·.setField id name value)
    push value
  | _ => raise .onlyInstancesHaveFields

/-- The class and the closure on top that is to become its member. -/
def classMember : Exec (ClassId × ClosureId) := do
  match ← peek 0 with
  | .closureRef member =>
    match ← peek 1 with
    | .classRef id => return (id, member)
    | _ => defect (.invalidTypes .classKind)
  | _ => defect (.invalidTypes .closure)

/-- Adds a member to the class below it. -/
def addMember (define : Heap → ClassId → String → ClosureId → Heap) : Exec Unit := do
  let name ← readName
  let (id, member) ← classMember
  modifyHeap (define · id name member)
  let _ ← pop

/-- Copies the members of the superclass into the class on top. -/
def inherit : Exec Unit := do
  match ← peek 0 with
  | .classRef subclass =>
    match ← peek 1 with
    | .classRef superclass => do
      modifyHeap (·.inherit subclass superclass)
      let _ ← pop
    | _ => raise .superclassMustBeClass
  | _ => defect (.invalidTypes .classKind)

/-- Takes a class off the stack. -/
def popClass : Exec ClassId := do
  match ← pop with
  | .classRef id => return id
  | _ => defect (.invalidTypes .classKind)

/-- Reads a property through the superclass on top. -/
def getSuper : Exec Unit := do
  let name ← readName
  let superclass ← popClass
  match ← pop with
  | .instanceRef receiver => readSuperProperty superclass receiver name
  | _ => defect (.invalidTypes .instanceKind)

/-- Calls a property of the instance below the arguments. -/
def invokeProperty : Exec Unit := do
  let name ← readName
  let arguments ← readByte
  invoke name arguments

/-- Calls a method of the superclass on top. -/
def invokeSuper : Exec Unit := do
  let name ← readName
  let arguments ← readByte
  let superclass ← popClass
  invokeFrom superclass name arguments

/-! ## Arrays and output -/

/-- Makes an array of the values on top, through the class for arrays. -/
def arrayLiteral : Exec Unit := do
  let count ← readByte
  let elements ← popMany count.toNat
  match (← get).globals.get? "Array" with
  | none => raise .missingArrayClass
  | some arrayClass => do
    push arrayClass
    push (.array elements)
    push (.int (Int64.ofNat count.toNat))
    callValue arrayClass 2

/-- Prints the value on top. -/
def print : Exec Unit := do
  let value ← pop
  describe .print "" value.pieces

/-! ## One step -/

/-- Does an instruction that never ends the run. -/
def proceed (instruction : Exec Unit) : Exec (Option Value) := do
  instruction
  return none

/-- Does an instruction; the result of the run, if the run ends. -/
def execute : Opcode → Exec (Option Value)
  | .uninitialized => defect .uninitializedInstruction
  | .constant => proceed do push (← readConstant)
  | .ret => leave
  | .negate => proceed (applyUnary Value.negate)
  | .not => proceed (applyUnary fun v => .ok v.not)
  | .add => proceed (applyBinary Value.add)
  | .subtract => proceed (applyBinary Value.subtract)
  | .multiply => proceed (applyBinary Value.multiply)
  | .divide => proceed (applyBinary Value.divide)
  | .equal => proceed (applyBinary fun a b => .ok (.bool (a.equals b)))
  | .notEqual => proceed (applyBinary fun a b => .ok (.bool (!a.equals b)))
  | .less => proceed (applyBinary Value.less)
  | .greater => proceed (applyBinary Value.greater)
  | .pushTrue => proceed (push (.bool true))
  | .pushFalse => proceed (push (.bool false))
  | .print => proceed print
  | .pop => proceed do let _ ← pop
  | .defineGlobal => proceed defineGlobal
  | .getGlobal => proceed getGlobal
  | .setGlobal => proceed setGlobal
  | .getLocal => proceed getLocal
  | .setLocal => proceed setLocal
  | .getUpvalue => proceed getCaptured
  | .setUpvalue => proceed setCaptured
  | .jump => proceed jump
  | .jumpIfFalse => proceed jumpIfFalse
  | .loop => proceed loop
  | .call => proceed call
  | .closure => proceed makeClosure
  | .closeUpvalue => proceed dropCaptured
  | .newClass => proceed makeClass
  | .getProperty => proceed getProperty
  | .setProperty => proceed setProperty
  | .method => proceed (addMember Heap.defineMethod)
  | .invoke => proceed invokeProperty
  | .inherit => proceed inherit
  | .getSuper => proceed getSuper
  | .invokeSuper => proceed invokeSuper
  | .pushNil => proceed (push .nil)
  | .arrayLiteral => proceed arrayLiteral
  | .computedProperty => proceed (addMember Heap.defineProperty)

/-- Does the next instruction; the result of the run, if the run ends. -/
def step : Exec (Option Value) := do
  execute (← readOpcode)

end ScriptVM.Exec
