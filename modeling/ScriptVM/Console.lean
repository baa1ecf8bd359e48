/-
# The console

What the command line shows: an interactive loop that interprets one line after the other, and a
mode that interprets a file and ends with an exit code.  All that is shown goes through the sink of
the session, in order.
-/
import ScriptVM.Chunk.Listing
import ScriptVM.Session

namespace ScriptVM.Console

/-- Shows a text. -/
def display (text : String) (s : Session) : Session :=
  s.modifySink (·.write text)

/-- The text that asks for a line. -/
def promptText : String := "> "

/-- The listing of a source, shown before it runs; nothing if it does not compile. -/
def listing? (source : String) : Option String :=
  match Program.compile source with
  | .ok program => some (program.mainFunction.chunk.listing program.heap ++ "\n")
  | .error _ => none

/-- Shows the listing of a source if listings are wanted. -/
def showListing (wanted : Bool) (source : String) (s : Session) : Session :=
  match if wanted then listing? source else none with
  | some text => display text s
  | none => s

section

variable {μ : Type → Type} [Monad μ] (runner : Runner μ) (listings : Bool)

/-! ## The interactive loop -/

/-- Interprets a line and asks for the next one. -/
def enter (line : String) (s : Session) : μ (Interpreted × Session) := do
  let (outcome, s) ← (showListing listings line s).interpret runner line
  return (outcome, display promptText s)

/-- Interprets lines up to the first empty one.  What is wrong with a line does not end the
loop. -/
def enterAll : List String → Session → μ Session
  | [], s => return s
  | line :: rest, s => do
    if line.isEmpty then return s
    let (_, s) ← enter runner listings line s
    enterAll rest s

/-- The interactive loop over a list of lines. -/
def interact (lines : List String) (s : Session) : μ Session :=
  enterAll runner listings lines (display promptText s)

end

/-! ## Files -/

/-- Why a file cannot be read. -/
inductive ReadFailure where
  /-- There is no such file. -/
  | missing
  /-- Its bytes are no text. -/
  | notText
  /-- The system refuses, and says why. -/
  | refused (reason : String)
deriving DecidableEq, Repr

/-- The message about a file that cannot be read. -/
def ReadFailure.message : ReadFailure → String
  | .missing => "Error: No such file or directory (os error 2)\n"
  | .notText => "Error: stream did not contain valid UTF-8\n"
  | .refused reason => s!"Error: {reason}\n"

/-- The text of a file with these bytes. -/
def textOfBytes (bytes : ByteArray) : Except ReadFailure String :=
  match String.fromUTF8? bytes with
  | some text => .ok text
  | none => .error .notText

/-- How a command ends. -/
structure Ending where
  /-- The exit code. -/
  exitCode : UInt8
  /-- The text on the error channel. -/
  errorText : String
deriving DecidableEq, Repr

/-- How a command ends that has interpreted a file. -/
def Ending.of : Interpreted → Ending
  | .ok _ => ⟨0, ""⟩
  | .error (.compile errors) => ⟨65, CompileError.report errors⟩
  | .error (.fault _) => ⟨70, ""⟩

/-- How a command ends that could not read its file. -/
def Ending.unreadable (failure : ReadFailure) : Ending :=
  ⟨1, failure.message⟩

/-- Interprets the text of a file, if it could be read. -/
def interpretFile {μ : Type → Type} [Monad μ] (runner : Runner μ) (listings : Bool)
    (contents : Except ReadFailure String) (s : Session) : μ (Ending × Session) := do
  match contents with
  | .error failure => return (.unreadable failure, s)
  | .ok text =>
    let (outcome, s) ← (showListing listings text s).interpret runner text
    return (.of outcome, s)

end ScriptVM.Console
