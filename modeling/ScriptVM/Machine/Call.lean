/-
# Calls

How values are called, how properties are found, and how a call is left.  Fields come before
computed properties, and those before methods.  Calls that run inside another instruction are
started by `evaluate`; `resume` completes the instruction with their result.
-/
import ScriptVM.Machine.Cells

namespace ScriptVM

/-! ## Descriptions as pieces -/

namespace Value

mutual

/-- The description of a value as texts and values that are no arrays. -/
def pieces : Value → List Piece
  | .array elements =>
    .text "[" :: List.intercalate [.text ", "] (piecesOfEach elements) ++ [.text "]"]
  | v => [.leaf v]

/-- The descriptions of a list of values. -/
def piecesOfEach : List Value → List (List Piece)
  | [] => []
  | v :: vs => pieces v :: piecesOfEach vs

end

end Value

/-- The description of a value that is no array: a text, or what a computed property gives. -/
inductive LeafText where
  /-- A text that is known. -/
  | known (text : String)
  /-- The result of a computed property. -/
  | computed (property : ClosureId)

/-- How a value that is no array describes itself.  An instance may have a field or a computed
property for it. -/
def Heap.leafText (heap : Heap) : Value → LeafText
  | .instanceRef id =>
    match heap.field? id "description" with
    | some description => .known (description.display heap)
    | none =>
      match (heap.classOf id).properties.get? "description" with
      | some property => .computed property
      | none => .known ((Value.instanceRef id).display heap)
  | v => .known (v.display heap)

namespace Exec

/-! ## Starting calls -/

/-- Calls a closure with the arguments on the stack. -/
def enter (closure : ClosureId) (arguments : UInt8) (resume : Resume) : Exec Unit := do
  let function := (← heap).functionOf closure
  if function.arity ≠ arguments then raise (.arity function.arity arguments)
  let slots ← calleeSlot arguments
  pushFrame ⟨closure, 0, slots, resume⟩

/-- Calls a closure without arguments inside the current instruction. -/
def evaluate (closure : ClosureId) (receiver : Value) (resume : Resume) : Exec Unit := do
  if nestingLimit ≤ (← get).nesting then raise .stackOverflow
  push receiver
  enter closure 0 resume

/-! ## Descriptions -/

/-- Does with a description what it is for. -/
def deliver (purpose : Purpose) (description : String) : Exec Unit := do
  match purpose.output? description with
  | some text => write text
  | none => pure ()
  match purpose.result? description with
  | some value => push value
  | none => pure ()

/-- Puts a description together from its text so far and what is still to come. -/
def describe (purpose : Purpose) (done : String) : List Piece → Exec Unit
  | [] => deliver purpose done
  | .text s :: rest => describe purpose (done ++ s) rest
  | .leaf value :: rest => do
    match (← heap).leafText value with
    | .known text => describe purpose (done ++ text) rest
    | .computed property => evaluate property value (.description ⟨purpose, done, rest⟩)

/-! ## Calling values -/

/-- Calls a native function with the arguments on the stack. -/
def callNative (function : Native) (arguments : UInt8) : Exec Unit := do
  if function.arity ≠ arguments then raise (.arity function.arity arguments)
  let values ← popMany arguments.toNat
  let _ ← pop
  match function.effect (← get).now values with
  | .error e => raise e
  | .ok (.result value) => push value
  | .ok (.describe value purpose) => describe purpose "" value.pieces

/-- The element of a list with an index; outside the list it is `nil`. -/
def elementAt (elements : List Value) (index : Int) : Value :=
  if index < 0 then .nil else elements.getD index.toNat .nil

/-- Calls an array, which reads an element. -/
def callArray (elements : List Value) (arguments : UInt8) : Exec Unit := do
  if arguments ≠ 1 then raise (.arity 1 arguments)
  let index ← pop
  let _ ← pop
  match index with
  | .int i => push (elementAt elements i.toInt)
  | other => raise (.invalidIndex other.kind)

/-- Calls a class, which makes an instance. -/
def callClass (id : ClassId) (arguments : UInt8) : Exec Unit := do
  let instanceId ← allocate (·.newInstance id)
  setCallee arguments (.instanceRef instanceId)
  match ((← heap).classAt id).methods.get? "init" with
  | some init => enter init arguments .caller
  | none => if arguments ≠ 0 then raise (.arity 0 arguments)

/-- Calls a value with the arguments on the stack. -/
def callValue (callee : Value) (arguments : UInt8) : Exec Unit := do
  match callee with
  | .closureRef id => enter id arguments .caller
  | .classRef id => callClass id arguments
  | .bound receiver method => do
    setCallee arguments (.instanceRef receiver)
    enter method arguments .caller
  | .native function => callNative function arguments
  | .array elements => callArray elements arguments
  | .instanceRef id =>
    match ((← heap).classOf id).methods.get? "subscript" with
    | some subscript => enter subscript arguments .caller
    | none => raise (.notCallable .instanceKind)
  | other => raise (.notCallable other.kind)

/-! ## Properties -/

/-- Calls a method of a class with the arguments on the stack. -/
def invokeFrom (id : ClassId) (name : String) (arguments : UInt8) : Exec Unit := do
  match ((← heap).classAt id).methods.get? name with
  | some method => enter method arguments .caller
  | none => raise (.undefinedProperty name)

/-- Replaces the callee by a value and calls the value. -/
def callInstead (value : Value) (arguments : UInt8) : Exec Unit := do
  setCallee arguments value
  callValue value arguments

/-- Calls a property of the instance below the arguments. -/
def invoke (name : String) (arguments : UInt8) : Exec Unit := do
  match ← peek arguments.toNat with
  | .instanceRef id => do
    let heap ← heap
    match heap.field? id name with
    | some field => callInstead field arguments
    | none =>
      match (heap.classOf id).properties.get? name with
      | some property => evaluate property (.instanceRef id) (.invocation arguments)
      | none => invokeFrom (heap.instanceAt id).classId name arguments
  | _ => raise .onlyInstancesHaveMethods

/-- Replaces the value on top. -/
def replaceTop (value : Value) : Exec Unit := do
  let _ ← pop
  push value

/-- Replaces the instance on top by one of its properties. -/
def readProperty (id : InstanceId) (name : String) : Exec Unit := do
  let heap ← heap
  match heap.field? id name with
  | some value => replaceTop value
  | none =>
    match (heap.classOf id).properties.get? name with
    | some property => evaluate property (.instanceRef id) .property
    | none =>
      match (heap.classOf id).methods.get? name with
      | some method => replaceTop (.bound id method)
      | none => raise (.undefinedProperty name)

/-- Pushes a property that an instance has through a superclass. -/
def readSuperProperty (superclass : ClassId) (receiver : InstanceId) (name : String) :
    Exec Unit := do
  let parent := (← heap).classAt superclass
  match parent.properties.get? name with
  | some property => evaluate property (.instanceRef receiver) .superProperty
  | none =>
    match parent.methods.get? name with
    | some method => push (.bound receiver method)
    | none => raise (.undefinedProperty name)

/-! ## Leaving calls -/

/-- Completes what a call was for with its result; the result of the run, if the run ends. -/
def resume (result : Value) : Resume → Exec (Option Value)
  | .finish => return some result
  | .caller | .superProperty => do
    push result
    return none
  | .property => do
    replaceTop result
    return none
  | .invocation arguments => do
    callInstead result arguments
    return none
  | .description pending => do
    let text := result.display (← heap)
    describe pending.purpose (pending.done ++ text) pending.rest
    return none

/-- Leaves the call in progress with the value on top. -/
def leave : Exec (Option Value) := do
  let result ← pop
  let f ← popFrame
  closeCells f.slots
  modify fun m => { m with stack := m.stack.truncate f.slots }
  resume result f.resume

end Exec

end ScriptVM
