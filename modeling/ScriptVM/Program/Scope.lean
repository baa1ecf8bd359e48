/-
# Scopes

What is known about a function while its code is being built: its local variables with their stack
slots, the variables it captures from the functions around it, and how deep the current block is
nested.

Locals are listed innermost first, so a local's slot is the number of locals behind it, and the
first local of a name is the visible one.  Slot zero belongs to the function itself, or to the
instance in a method.
-/
import ScriptVM.Heap
import ScriptVM.Program.Error

namespace ScriptVM

/-- A local variable. -/
structure Local where
  /-- Its name. -/
  name : String
  /-- The nesting depth of its scope. -/
  depth : Nat
  /-- Whether its initial value is complete. -/
  initialized : Bool
  /-- Whether a function inside captures it. -/
  captured : Bool
deriving DecidableEq, Repr, Inhabited

/-- A captured variable: a local of the function around, or one that that function captures. -/
structure Capture where
  /-- The slot or the index there. -/
  index : UInt8
  /-- Whether it is a local there. -/
  isLocal : Bool
deriving DecidableEq, Repr, Inhabited

/-- A function whose code is being built. -/
structure FunctionContext where
  /-- The function so far. -/
  function : Function
  /-- Its locals, innermost first. -/
  locals : List Local
  /-- The variables it captures, in the order of their indices. -/
  captures : Array Capture
  /-- The nesting depth of the current block. -/
  depth : Nat
deriving Inhabited

namespace FunctionContext

/-- The greatest number of locals. -/
def localLimit : Nat := 256

/-- The greatest number of captured variables. -/
def captureLimit : Nat := 256

/-- The name under which slot zero is visible. -/
def receiverName : FunctionKind → String
  | .method | .initializer => "self"
  | .script | .function => ""

/-- A function before its first instruction. -/
def start (name : String) (kind : FunctionKind) : FunctionContext where
  function := .empty name kind
  locals := [⟨receiverName kind, 0, true, false⟩]
  captures := #[]
  depth := 0

/-! ## Locals -/

/-- The visible local of a name with its slot. -/
def findLocal? (name : String) : List Local → Option (Nat × Local)
  | [] => none
  | l :: rest => if l.name = name then some (rest.length, l) else findLocal? name rest

/-- The slot of the visible local of a name. -/
def resolveLocal (context : FunctionContext) (name : String) : Except ErrorKind (Option UInt8) :=
  match findLocal? name context.locals with
  | none => .ok none
  | some (slot, l) =>
    if l.initialized then .ok (some (UInt8.ofNat slot)) else .error .localInOwnInitializer

/-- The locals once the one in a slot is captured. -/
def captureSlot (slot : Nat) : List Local → List Local
  | [] => []
  | l :: rest =>
    if rest.length = slot then { l with captured := true } :: rest else l :: captureSlot slot rest

/-- Notes that the local in a slot is captured. -/
def markCaptured (context : FunctionContext) (slot : UInt8) : FunctionContext :=
  { context with locals := captureSlot slot.toNat context.locals }

/-- Whether the current scope already has a local of a name. -/
def declares (context : FunctionContext) (name : String) : Bool :=
  (context.locals.takeWhile (·.depth = context.depth)).any (·.name = name)

/-- Adds a local to the current scope; its initial value is not complete yet. -/
def addLocal (context : FunctionContext) (name : String) : Except ErrorKind FunctionContext :=
  if context.locals.length < localLimit then
    .ok { context with locals := ⟨name, context.depth, false, false⟩ :: context.locals }
  else .error .tooManyLocals

/-- Notes that the initial value of the innermost local is complete. -/
def markInitialized (context : FunctionContext) : FunctionContext :=
  match context.depth, context.locals with
  | _ + 1, l :: rest => { context with locals := { l with initialized := true } :: rest }
  | _, _ => context

/-! ## Captured variables -/

/-- The index of a captured variable, added if it is new. -/
def addCapture (context : FunctionContext) (capture : Capture) :
    Except ErrorKind UInt8 × FunctionContext :=
  match context.captures.idxOf? capture with
  | some index => (.ok (UInt8.ofNat index), context)
  | none =>
    if context.captures.size < captureLimit then
      (.ok (UInt8.ofNat context.captures.size),
        { context with captures := context.captures.push capture })
    else (.error .tooManyCaptures, context)

end FunctionContext

/-- The outcome of looking for a variable in the functions around: its index if it is found, and
the contexts with what they now capture. -/
structure Resolution where
  /-- The index among the captured variables, or why there is none. -/
  index : Except ErrorKind (Option UInt8)
  /-- The function in which the name occurs. -/
  context : FunctionContext
  /-- The functions around it, innermost first. -/
  enclosing : List FunctionContext

/-- Looks for a variable in the functions around `context`, innermost first.  Each function between
the variable and its use captures it from the next one out. -/
def resolveCapture (name : String) : FunctionContext → List FunctionContext → Resolution
  | context, [] => ⟨.ok none, context, []⟩
  | context, outer :: rest =>
    match outer.resolveLocal name with
    | .error e => ⟨.error e, context, outer :: rest⟩
    | .ok (some slot) =>
      let (index, context) := context.addCapture ⟨slot, true⟩
      ⟨index.map some, context, outer.markCaptured slot :: rest⟩
    | .ok none =>
      let found := resolveCapture name outer rest
      match found.index with
      | .error e => ⟨.error e, context, found.context :: found.enclosing⟩
      | .ok none => ⟨.ok none, context, found.context :: found.enclosing⟩
      | .ok (some i) =>
        let (index, context) := context.addCapture ⟨i, false⟩
        ⟨index.map some, context, found.context :: found.enclosing⟩

end ScriptVM
