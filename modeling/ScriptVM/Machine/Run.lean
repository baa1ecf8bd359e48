/-
# Runs

A run starts with a call of a function and goes on step by step until that call is left or a fault
occurs.  A fault is reported to the output, and the machine is made ready for the next run; the heap
and the global variables stay as they are.

A program may run forever, so a run is given a number of steps and may be found still running after
them.
-/
import ScriptVM.Machine.Step

namespace ScriptVM

namespace Exec

/-- Starts the run of a function. -/
def launch (function : FunctionId) : Exec Unit := do
  let id ← allocate (·.newClosure ⟨function, #[]⟩)
  push (.closureRef id)
  enter id 0 .finish

end Exec

namespace Machine

/-! ## Reports -/

/-- The line that the call in progress is at. -/
def lineOf (heap : Heap) (f : Frame) : Nat :=
  ((heap.functionOf f.closure).chunk.lineAt? (f.ip - 1)).getD 0

/-- The line of a report about a call. -/
def frameText (heap : Heap) (f : Frame) : String :=
  let function := heap.functionOf f.closure
  let place := if function.kind = .script then "script" else s!"{function.name}()"
  s!"\t[line {lineOf heap f}] in {place}\n"

/-- The line above and below the message of a report. -/
def border : String :=
  String.ofList (List.replicate 66 '-') ++ "\n"

/-- The report of a fault: the message, the stack bottom first, and the calls innermost first. -/
def report (m : Machine) (fault : Fault) : String :=
  let values := m.stack.toList.map fun v => s!"[ {v.debug m.heap} ]"
  let frames := m.frames.toList.reverse.map (frameText m.heap)
  border ++ fault.message ++ "\n" ++ border ++ "Stack: " ++ String.join values ++ "\n" ++
    String.join frames

/-- The machine without values, calls and open cells. -/
def reset (m : Machine) : Machine :=
  { m with stack := .empty, frames := .empty, openCells := [] }

/-- Reports a fault and makes the machine ready for the next run. -/
def abandon (m : Machine) (fault : Fault) : Machine :=
  { m with sink := m.sink.write (m.report fault) }.reset

/-! ## Running -/

/-- How far a run has come. -/
inductive Progress where
  /-- It goes on. -/
  | running (m : Machine)
  /-- It ended with a value. -/
  | finished (value : Value) (m : Machine)
  /-- It ended with a fault. -/
  | failed (fault : Fault) (m : Machine)

/-- Goes on with a run for a number of steps. -/
def advance : Nat → Machine → Progress
  | 0, m => .running m
  | steps + 1, m =>
    match Exec.step m with
    | .ok none m => advance steps m
    | .ok (some value) m => .finished value m
    | .error fault m => .failed fault m

/-- Starts the run of a function. -/
def launch (m : Machine) (function : FunctionId) : Progress :=
  match Exec.launch function m with
  | .ok _ m => .running m
  | .error fault m => .failed fault m

/-- Goes on with a run that is still going on. -/
def Progress.advance (steps : Nat) : Progress → Progress
  | .running m => m.advance steps
  | p => p

/-- The outcome of a run that has ended, and the machine ready for the next run. -/
def Progress.outcome? : Progress → Option (Except Fault Value × Machine)
  | .running _ => none
  | .finished value m => some (.ok value, m)
  | .failed fault m => some (.error fault, m.abandon fault)

/-- Runs a function for at most a number of steps. -/
def run (steps : Nat) (m : Machine) (function : FunctionId) :
    Option (Except Fault Value × Machine) :=
  ((m.launch function).advance steps).outcome?

end Machine

end ScriptVM
