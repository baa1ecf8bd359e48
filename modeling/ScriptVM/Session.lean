/-
# Sessions

A session runs several sources on one machine, so that later ones see the global variables of
earlier ones.  `Session.interpret` runs the prelude before its first source; `Session.run` never
does.

How long a run may take is for the surroundings to decide: a `Runner` takes a run to its end, in
whatever monad the surroundings work in.
-/
import ScriptVM.Machine.Run
import ScriptVM.Prelude
import ScriptVM.Program

namespace ScriptVM

/-- Takes a run to its end. -/
abbrev Runner (μ : Type → Type) := Machine.Progress → μ (Except Fault Value × Machine)

/-- The runner that gives up after a number of steps. -/
def Runner.limited (steps : Nat) : Runner Option :=
  fun progress => (progress.advance steps).outcome?

/-- Why a source has no value. -/
inductive InterpretError where
  /-- It does not compile. -/
  | compile (errors : List CompileError)
  /-- Its run failed. -/
  | fault (e : Fault)

/-- The value of a source, or why there is none. -/
abbrev Interpreted := Except InterpretError Value

/-- A machine that runs one source after the other. -/
structure Session where
  /-- The machine between two runs. -/
  machine : Machine
  /-- Whether the prelude has been started. -/
  preludeLoaded : Bool

namespace Session

/-- A session before its first source. -/
def new (natives : List Native) (sink : Sink) (now : Float) : Session :=
  ⟨.new natives sink now, false⟩

/-- The value of a global variable. -/
def global? (s : Session) (name : String) : Option Value :=
  s.machine.globals.get? name

/-- Changes where the programs write. -/
def modifySink (s : Session) (f : Sink → Sink) : Session :=
  { s with machine := { s.machine with sink := f s.machine.sink } }

/-- The session without the output so far. -/
def drain (s : Session) : Session :=
  s.modifySink Sink.drain

/-- The output since it was last taken away. -/
def output (s : Session) : String :=
  s.machine.sink.text

section

variable {μ : Type → Type} [Monad μ] (runner : Runner μ)

/-- Runs a function of the heap. -/
def runFunction (s : Session) (function : FunctionId) : μ (Interpreted × Session) := do
  let (outcome, machine) ← runner (s.machine.launch function)
  return (outcome.mapError .fault, { s with machine })

/-- Compiles and runs a source. -/
def run (s : Session) (source : String) : μ (Interpreted × Session) := do
  match Program.compileAfter s.machine.heap.functions source with
  | .error errors => return (.error (.compile errors), s)
  | .ok program =>
    let heap := { s.machine.heap with functions := program.functions }
    runFunction runner { s with machine := { s.machine with heap } } program.main

/-- Runs the prelude if that has not been done. -/
def loadPrelude (s : Session) : μ (Except InterpretError Unit × Session) := do
  if s.preludeLoaded then return (.ok (), s)
  let (outcome, s) ← run runner { s with preludeLoaded := true } prelude
  return (outcome.map fun _ => (), s)

/-- Compiles and runs a source, after the prelude. -/
def interpret (s : Session) (source : String) : μ (Interpreted × Session) := do
  let (outcome, s) ← loadPrelude runner s
  match outcome with
  | .error e => return (.error e, s)
  | .ok _ => run runner s source

end

end Session

end ScriptVM
