/-
# The texts of values

How a value is shown: `Value.display` as programs print it, `Value.debug` as stack dumps and
listings of constants show it, with texts in quotes.  Instances are shown by their class only, since
their fields can lead back to them.
-/
import ScriptVM.Decimal.Shortest
import ScriptVM.Heap
import ScriptVM.Text.Quoted

namespace ScriptVM

/-- How a function is shown. -/
def Function.display (f : Function) : String :=
  s!"<fn {f.name}>"

namespace Value

/-- Texts in brackets, divided by commas. -/
def bracketed (items : List String) : String :=
  "[" ++ String.intercalate ", " items ++ "]"

/-- How a value that is no array is shown. -/
def displayPlain (heap : Heap) : Value → String
  | .nil => "nil"
  | .bool b => if b then "true" else "false"
  | .int i => toString i.toInt
  | .number x => Decimal.write x
  | .string text => text
  | .array _ => "[]"
  | .functionRef id => (heap.function id).display
  | .closureRef id => (heap.functionOf id).display
  | .classRef id => s!"<class {(heap.classAt id).name}>"
  | .instanceRef id => s!"<{(heap.classOf id).name} instance>"
  | .bound receiver method =>
    s!"<bound method {(heap.classOf receiver).name}.{(heap.functionOf method).name}>"
  | .native function => s!"<native {function.name}>"

mutual

/-- How programs show a value. -/
def display (heap : Heap) : Value → String
  | .array elements => bracketed (displayList heap elements)
  | v => displayPlain heap v

/-- How programs show each value of a list. -/
def displayList (heap : Heap) : List Value → List String
  | [] => []
  | v :: vs => display heap v :: displayList heap vs

end

mutual

/-- How stack dumps and listings show a value. -/
def debug (heap : Heap) : Value → String
  | .string text => Text.quote text
  | .array elements => bracketed (debugList heap elements)
  | v => displayPlain heap v

/-- How stack dumps and listings show each value of a list. -/
def debugList (heap : Heap) : List Value → List String
  | [] => []
  | v :: vs => debug heap v :: debugList heap vs

end

end Value

end ScriptVM
