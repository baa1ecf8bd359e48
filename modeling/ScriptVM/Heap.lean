/-
# The heap

Everything that values refer to: functions, closures, cells of captured variables, classes and
instances, each kind numbered on its own in the order of creation.  A reference that nothing was
created for reads as the default object of its kind; the operations that create references never
make one.
-/
import ScriptVM.Bindings
import ScriptVM.Chunk

namespace ScriptVM

/-! ## Objects -/

/-- What a function is for. -/
inductive FunctionKind where
  /-- The top level of a source. -/
  | script
  /-- A function. -/
  | function
  /-- A method or computed property. -/
  | method
  /-- The method that prepares a new instance. -/
  | initializer
deriving DecidableEq, Repr, Inhabited

/-- A compiled function. -/
structure Function where
  /-- Its name. -/
  name : String
  /-- The number of its parameters. -/
  arity : UInt8
  /-- The number of variables it captures. -/
  captureCount : Nat
  /-- What it is for. -/
  kind : FunctionKind
  /-- Its code. -/
  chunk : Chunk
deriving Inhabited

/-- A function without code. -/
def Function.empty (name : String) (kind : FunctionKind) : Function :=
  ⟨name, 0, 0, kind, .empty name⟩

/-- A captured variable.  While its stack slot is in use the cell stands for the slot; after that it
holds the value itself. -/
inductive Cell where
  /-- The variable lives in a stack slot. -/
  | openAt (slot : Nat)
  /-- The variable lives in the cell. -/
  | closed (value : Value)
deriving Inhabited

/-- A function with the cells of the variables it captured. -/
structure Closure where
  /-- The function. -/
  function : FunctionId
  /-- The cells, in the order in which the function counts them. -/
  captures : Array CellId
deriving Inhabited

/-- A class. -/
structure Class where
  /-- Its name. -/
  name : String
  /-- Its methods, the inherited ones included. -/
  methods : Bindings ClosureId
  /-- Its computed properties, the inherited ones included. -/
  properties : Bindings ClosureId
deriving Inhabited

/-- An instance of a class. -/
structure Instance where
  /-- Its class. -/
  classId : ClassId
  /-- Its fields. -/
  fields : Bindings Value
deriving Inhabited

/-- The objects that values refer to. -/
structure Heap where
  /-- The functions. -/
  functions : Array Function
  /-- The closures. -/
  closures : Array Closure
  /-- The cells. -/
  cells : Array Cell
  /-- The classes. -/
  classes : Array Class
  /-- The instances. -/
  instances : Array Instance
deriving Inhabited

namespace Heap

/-- The heap without objects. -/
def empty : Heap :=
  ⟨#[], #[], #[], #[], #[]⟩

/-! ## Reading -/

/-- The function of a reference. -/
def function (heap : Heap) (id : FunctionId) : Function :=
  heap.functions.getD id.index default

/-- The closure of a reference. -/
def closure (heap : Heap) (id : ClosureId) : Closure :=
  heap.closures.getD id.index default

/-- The function of a closure. -/
def functionOf (heap : Heap) (id : ClosureId) : Function :=
  heap.function (heap.closure id).function

/-- The cell of a reference. -/
def cell (heap : Heap) (id : CellId) : Cell :=
  heap.cells.getD id.index default

/-- The class of a reference. -/
def classAt (heap : Heap) (id : ClassId) : Class :=
  heap.classes.getD id.index default

/-- The instance of a reference. -/
def instanceAt (heap : Heap) (id : InstanceId) : Instance :=
  heap.instances.getD id.index default

/-- The class of an instance. -/
def classOf (heap : Heap) (id : InstanceId) : Class :=
  heap.classAt (heap.instanceAt id).classId

/-- The field of an instance. -/
def field? (heap : Heap) (id : InstanceId) (name : String) : Option Value :=
  (heap.instanceAt id).fields.get? name

/-! ## Creating -/

/-- Adds a function. -/
def newFunction (heap : Heap) (function : Function) : FunctionId × Heap :=
  (⟨heap.functions.size⟩, { heap with functions := heap.functions.push function })

/-- Adds a closure. -/
def newClosure (heap : Heap) (closure : Closure) : ClosureId × Heap :=
  (⟨heap.closures.size⟩, { heap with closures := heap.closures.push closure })

/-- Adds a cell. -/
def newCell (heap : Heap) (cell : Cell) : CellId × Heap :=
  (⟨heap.cells.size⟩, { heap with cells := heap.cells.push cell })

/-- Adds a class without members. -/
def newClass (heap : Heap) (name : String) : ClassId × Heap :=
  (⟨heap.classes.size⟩, { heap with classes := heap.classes.push ⟨name, .empty, .empty⟩ })

/-- Adds an instance without fields. -/
def newInstance (heap : Heap) (classId : ClassId) : InstanceId × Heap :=
  (⟨heap.instances.size⟩, { heap with instances := heap.instances.push ⟨classId, .empty⟩ })

/-! ## Changing -/

/-- Replaces a cell. -/
def setCell (heap : Heap) (id : CellId) (cell : Cell) : Heap :=
  { heap with cells := heap.cells.setIfInBounds id.index cell }

/-- Defines a method of a class. -/
def defineMethod (heap : Heap) (id : ClassId) (name : String) (method : ClosureId) : Heap :=
  { heap with
    classes := heap.classes.modify id.index fun c =>
      { c with methods := c.methods.insert name method } }

/-- Defines a computed property of a class. -/
def defineProperty (heap : Heap) (id : ClassId) (name : String) (property : ClosureId) : Heap :=
  { heap with
    classes := heap.classes.modify id.index fun c =>
      { c with properties := c.properties.insert name property } }

/-- Copies the members of a superclass into a class; later changes of the superclass are not
seen. -/
def inherit (heap : Heap) (subclass superclass : ClassId) : Heap :=
  let parent := heap.classAt superclass
  { heap with
    classes := heap.classes.modify subclass.index fun c =>
      { c with
        methods := c.methods.merge parent.methods
        properties := c.properties.merge parent.properties } }

/-- Assigns a field of an instance. -/
def setField (heap : Heap) (id : InstanceId) (name : String) (value : Value) : Heap :=
  { heap with
    instances := heap.instances.modify id.index fun i =>
      { i with fields := i.fields.insert name value } }

end Heap

end ScriptVM
