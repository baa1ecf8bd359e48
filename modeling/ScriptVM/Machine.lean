/-
# The machine

The state of a running program: a heap, global variables, a stack of values, a stack of calls, the
cells of captured variables that still live on the stack, and the place to write to.

Some instructions have to run code of the program before they are complete: reading a computed
property, or describing an instance.  Such a call carries in its frame what happens with its result
(`Resume`), so the machine needs one kind of step only.  The number of such frames is limited.

`Exec` is a step that may fail; the state at the failure is kept for the report.
-/
import ScriptVM.Native.Effect
import ScriptVM.Sink

namespace ScriptVM

/-! ## State -/

/-- A part of a description that is still to be put together. -/
inductive Piece where
  /-- A text. -/
  | text (s : String)
  /-- A value that is no array. -/
  | leaf (value : Value)

/-- A description that waits for the description of an instance. -/
structure Description where
  /-- What it is for. -/
  purpose : Purpose
  /-- The text so far. -/
  done : String
  /-- What comes after the instance. -/
  rest : List Piece

/-- What happens with the result of a call. -/
inductive Resume where
  /-- It is the result of the run. -/
  | finish
  /-- It goes onto the stack of the caller. -/
  | caller
  /-- It takes the place of the instance whose property was read. -/
  | property
  /-- It takes the place of the callee and is called itself. -/
  | invocation (arguments : UInt8)
  /-- It goes onto the stack as the property of the superclass. -/
  | superProperty
  /-- It completes a part of a description. -/
  | description (pending : Description)

/-- Whether a call runs inside another instruction. -/
def Resume.isNested : Resume → Bool
  | .finish | .caller => false
  | .property | .invocation _ | .superProperty | .description _ => true

/-- A call in progress. -/
structure Frame where
  /-- The closure that is called. -/
  closure : ClosureId
  /-- The offset of the next instruction. -/
  ip : Nat
  /-- The stack index of the callee; locals count from there. -/
  slots : Nat
  /-- What happens with the result. -/
  resume : Resume

/-- The greatest number of values on the stack. -/
abbrev stackLimit : Nat := 256

/-- The greatest number of calls in progress. -/
abbrev frameLimit : Nat := 256

/-- The greatest number of calls inside other instructions. -/
def nestingLimit : Nat := 32

/-- A machine. -/
structure Machine where
  /-- The objects. -/
  heap : Heap
  /-- The global variables. -/
  globals : Bindings Value
  /-- The values being worked on. -/
  stack : Stack Value stackLimit
  /-- The calls in progress. -/
  frames : Stack Frame frameLimit
  /-- The cells of captured variables that live on the stack. -/
  openCells : List CellId
  /-- Where the program writes. -/
  sink : Sink
  /-- The time in seconds. -/
  now : Float

namespace Machine

/-- A machine that offers the given native functions. -/
def new (natives : List Native) (sink : Sink) (now : Float) : Machine where
  heap := .empty
  globals := .ofList (natives.map fun n => (n.name, .native n))
  stack := .empty
  frames := .empty
  openCells := []
  sink := sink
  now := now

/-- The number of calls inside other instructions. -/
def nesting (m : Machine) : Nat :=
  m.frames.toList.countP (·.resume.isNested)

end Machine

/-- A part of a run, which may fail. -/
abbrev Exec := EStateM Fault Machine

namespace Exec

/-- Fails because of what the program did. -/
def raise {α : Type} (e : RuntimeError) : Exec α :=
  throw (.runtime e)

/-- Fails because the code is broken. -/
def defect {α : Type} (e : Defect) : Exec α :=
  throw (.internal e)

/-- The outcome of reading a stack. -/
def ofStack {α : Type} : Except StackError α → Exec α
  | .ok a => pure a
  | .error e => throw e.fault

/-- The outcome of an operator. -/
def ofOperator {α : Type} : Except ValueError α → Exec α
  | .ok a => pure a
  | .error e => raise (.value e)

/-- The heap. -/
def heap : Exec Heap := fun m => .ok m.heap m

/-- Makes a new object. -/
def allocate {α : Type} (make : Heap → α × Heap) : Exec α := fun m =>
  let (id, heap) := make m.heap
  .ok id { m with heap }

/-- Changes the heap. -/
def modifyHeap (f : Heap → Heap) : Exec Unit :=
  modify fun m => { m with heap := f m.heap }

/-! ## The stack of values -/

/-- Puts a value onto the stack. -/
def push (value : Value) : Exec Unit := fun m =>
  if h : m.stack.size < stackLimit then .ok () { m with stack := m.stack.pushOf value h }
  else .error StackError.overflow.fault m

/-- Takes the value on top off the stack. -/
def pop : Exec Value := fun m =>
  match m.stack.top? with
  | some value => .ok value { m with stack := m.stack.dropTop }
  | none => .error StackError.underflow.fault m

/-- Takes the top `n` values off the stack; they are given bottom first. -/
def popMany (n : Nat) : Exec (List Value) := fun m =>
  if n ≤ m.stack.size then
    .ok (m.stack.topItems n) { m with stack := m.stack.truncate (m.stack.size - n) }
  else .error StackError.underflow.fault m

/-- The value at a distance from the top. -/
def peek (distance : Nat) : Exec Value := do
  ofStack ((← get).stack.peek distance)

/-- The value in a stack slot. -/
def getSlot (slot : Nat) : Exec Value := do
  ofStack ((← get).stack.get slot)

/-- Replaces the value in a stack slot. -/
def setSlot (slot : Nat) (value : Value) : Exec Unit := fun m =>
  if slot < m.stack.size then .ok () { m with stack := m.stack.replace slot value }
  else .error StackError.underflow.fault m

/-- The stack slot of the callee below a number of arguments. -/
def calleeSlot (arguments : UInt8) : Exec Nat := do
  let size := (← get).stack.size
  if arguments.toNat < size then return size - (arguments.toNat + 1) else defect .stackUnderflow

/-- Replaces the callee below a number of arguments. -/
def setCallee (arguments : UInt8) (value : Value) : Exec Unit := do
  setSlot (← calleeSlot arguments) value

/-! ## The stack of calls -/

/-- The call in progress. -/
def frame : Exec Frame := fun m =>
  match m.frames.top? with
  | some f => .ok f m
  | none => .error StackError.underflow.fault m

/-- Goes to an offset of the code. -/
def goTo (ip : Nat) : Exec Unit :=
  modify fun m => { m with frames := m.frames.modifyTop fun f => { f with ip } }

/-- Starts a call. -/
def pushFrame (f : Frame) : Exec Unit := fun m =>
  if h : m.frames.size < frameLimit then .ok () { m with frames := m.frames.pushOf f h }
  else .error StackError.overflow.fault m

/-- Ends the call in progress. -/
def popFrame : Exec Frame := fun m =>
  match m.frames.top? with
  | some f => .ok f { m with frames := m.frames.dropTop }
  | none => .error StackError.underflow.fault m

/-! ## Reading code -/

/-- The code of the call in progress. -/
def chunk : Exec Chunk := do
  let f ← frame
  return ((← heap).functionOf f.closure).chunk

/-- Reads a code byte. -/
def readByte : Exec UInt8 := do
  let f ← frame
  let chunk := ((← heap).functionOf f.closure).chunk
  match chunk.code[f.ip]? with
  | some byte => do
    goTo (f.ip + 1)
    return byte
  | none => defect (.invalidInstructionPointer f.ip chunk.size)

/-- Reads two code bytes, high byte first. -/
def readShort : Exec Nat := do
  let high ← readByte
  let low ← readByte
  return high.toNat * 256 + low.toNat

/-- Reads the index of a constant, and gives the constant. -/
def readConstant : Exec Value := do
  let index ← readByte
  match (← chunk).constant? index with
  | some value => return value
  | none => defect (.invalidConstant index)

/-- Reads the index of a name, and gives the name. -/
def readName : Exec String := do
  match ← readConstant with
  | .string name => return name
  | _ => defect (.invalidTypes .string)

/-- Reads an opcode. -/
def readOpcode : Exec Opcode := do
  let byte ← readByte
  match Opcode.ofByte? byte with
  | some op => return op
  | none => defect (.invalidOpcode byte)

/-! ## Output -/

/-- Writes a text. -/
def write (text : String) : Exec Unit :=
  modify fun m => { m with sink := m.sink.write text }

end Exec

end ScriptVM
