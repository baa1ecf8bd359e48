/-
# Programs

`compile` turns a source into a program: a list of functions, each after those among its constants,
and the one that runs first.  A source with complaints gives all of them instead.

Phrases contain each other to any depth; `Build.phrase` ties them together.  Each phrase inside
another starts behind a token that the outer one has taken, or is the expression at the start of a
statement, so twice the number of items is depth enough for every source.
-/
import ScriptVM.Program.Statement
import ScriptVM.Token.Scan

namespace ScriptVM

namespace Build

/-- Any phrase, to a depth. -/
def phrase : Nat → Phrase → Build Unit
  | 0, _ => do fail (← peek) .nestingTooDeep
  | depth + 1, .declaration => declaration (phrase depth)
  | depth + 1, .conditional => conditional (phrase depth)
  | depth + 1, .expression least => expression (phrase depth) least

/-- The declarations of a whole source. -/
def declarations (depth : Nat) : Build Unit :=
  repeatWhile (blockRound (phrase depth) .eof)

end Build

/-- A compiled source. -/
structure Program where
  /-- All functions, each after those among its constants. -/
  functions : Array Function
  /-- The function that runs first. -/
  main : FunctionId
deriving Inhabited

namespace Builder

/-- A builder before the first token of a source, with earlier functions. -/
def start (functions : Array Function) (source : String) (items : List ScanItem) : Builder where
  source := source
  pending := items
  previous := ⟨.eof, "", 0, 1⟩
  context := .start "main" .script
  enclosing := []
  classes := []
  errors := #[]
  functions := functions

/-- The builder at the end of its source. -/
def complete (functions : Array Function) (source : String) : Builder :=
  let items := scan source
  match (do Build.declarations (2 * items.length + 2); Build.emitReturn : Build Unit)
      (start functions source items) with
  | .ok _ b => b
  | .error e b => { b with errors := b.errors.push e }

/-- The program, unless there are complaints. -/
def finish (b : Builder) : Except (List CompileError) Program :=
  if b.errors.isEmpty then
    .ok ⟨b.functions.push b.context.function, ⟨b.functions.size⟩⟩
  else .error b.errors.toList

end Builder

namespace Program

/-- Compiles a source; its functions are numbered behind the earlier ones. -/
def compileAfter (functions : Array Function) (source : String) :
    Except (List CompileError) Program :=
  (Builder.complete functions source).finish

/-- Compiles a source. -/
def compile (source : String) : Except (List CompileError) Program :=
  compileAfter #[] source

/-- The heap that holds just the functions of a program. -/
def heap (program : Program) : Heap :=
  { Heap.empty with functions := program.functions }

/-- The function that runs first. -/
def mainFunction (program : Program) : Function :=
  program.heap.function program.main

end Program

end ScriptVM
