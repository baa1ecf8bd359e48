/-
# Captured variables

A captured variable is one cell that all closures over it share.  As long as the variable is on the
stack the cell is open and stands for its slot; when the slot goes away the cell takes the value
over.
-/
import ScriptVM.Machine

namespace ScriptVM

/-- The stack slot that a cell stands for, if it is open. -/
def Cell.slot? : Cell → Option Nat
  | .openAt slot => some slot
  | .closed _ => none

namespace Machine

/-- Whether an open cell stands for a slot at or above `bottom`. -/
def opensAbove (m : Machine) (bottom : Nat) (id : CellId) : Bool :=
  ((m.heap.cell id).slot?).any (bottom ≤ ·)

/-- Moves the value of a cell's slot into the cell. -/
def closeCell (stack : Stack Value stackLimit) (heap : Heap) (id : CellId) : Heap :=
  match (heap.cell id).slot? with
  | some slot => heap.setCell id (.closed (stack.items.getD slot .nil))
  | none => heap

/-- Closes the cells of all slots at or above `bottom`. -/
def closeCells (m : Machine) (bottom : Nat) : Machine :=
  let (closing, staying) := m.openCells.partition (m.opensAbove bottom)
  { m with heap := closing.foldl (closeCell m.stack) m.heap, openCells := staying }

end Machine

namespace Exec

/-- Closes the cells of all slots at or above `bottom`. -/
def closeCells (bottom : Nat) : Exec Unit :=
  modify (·.closeCells bottom)

/-- The cell of a stack slot; two captures of one slot share it. -/
def captureSlot (slot : Nat) : Exec CellId := fun m =>
  match m.openCells.find? fun id => (m.heap.cell id).slot? = some slot with
  | some id => .ok id m
  | none =>
    let (id, heap) := m.heap.newCell (.openAt slot)
    .ok id { m with heap, openCells := id :: m.openCells }

/-- The cell with an index among those of a closure. -/
def capturedCell (captures : Array CellId) (index : Nat) : Exec CellId :=
  match captures[index]? with
  | some id => return id
  | none => defect (.invalidCapture index)

/-- Reads where `count` captured variables of a new closure come from, and gives their cells after
those already found.  They come from the slots above `base`, or from the captures around. -/
def readCaptures (base : Nat) (around : Array CellId) (found : Array CellId) :
    Nat → Exec (Array CellId)
  | 0 => return found
  | count + 1 => do
    let origin ← readByte
    let index := (← readByte).toNat
    let id ← if origin = 1 then captureSlot (base + index) else capturedCell around index
    readCaptures base around (found.push id) count

/-- Reads the index of a captured variable, and gives its cell. -/
def readCell : Exec CellId := do
  let index := (← readByte).toNat
  let f ← frame
  capturedCell ((← heap).closure f.closure).captures index

/-- The value of a captured variable. -/
def getCell (id : CellId) : Exec Value := do
  match (← heap).cell id with
  | .openAt slot => getSlot slot
  | .closed value => return value

/-- Assigns a captured variable. -/
def setCell (id : CellId) (value : Value) : Exec Unit := do
  match (← heap).cell id with
  | .openAt slot => setSlot slot value
  | .closed _ => modifyHeap (·.setCell id (.closed value))

end Exec

end ScriptVM
