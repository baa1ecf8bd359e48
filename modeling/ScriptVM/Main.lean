/-
# The command line program

Reads the options, and then a file or the standard input line by line.  A run is taken to its end in
slices, so that the time moves on and output appears while it runs.
-/
import Std.Time.DateTime.Timestamp
import ScriptVM.Console
import ScriptVM.Console.Options

namespace ScriptVM.Console

/-- The number of steps between two looks at the clock. -/
def sliceLength : Nat := 10000

/-- The seconds since the start of 1970. -/
def secondsNow : IO Float := do
  let nanoseconds := (← Std.Time.Timestamp.now).toNanosecondsSinceUnixEpoch.val
  return Float.ofInt nanoseconds / 1.0e9

/-- Prints the output of a machine so far. -/
def flush (m : Machine) : IO Machine := do
  let stdout ← IO.getStdout
  stdout.putStr m.sink.text
  stdout.flush
  return { m with sink := m.sink.drain }

/-- Prints the output of a session so far. -/
def flushSession (s : Session) : IO Session := do
  return { s with machine := ← flush s.machine }

/-- Takes a run to its end. -/
partial def runToEnd : Runner IO
  | .running m => do
    let m ← flush m
    runToEnd ({ m with now := ← secondsNow }.advance sliceLength)
  | .finished value m => return (.ok value, m)
  | .failed fault m => return (.error fault, m.abandon fault)

/-- Reads the text of a file. -/
def readFile (path : String) : IO (Except ReadFailure String) := do
  try
    return textOfBytes (← IO.FS.readBinFile path)
  catch
    | .noFileOrDirectory .. => return .error .missing
    | e => return .error (.refused (toString e))

/-- Runs a file; the exit code. -/
def runFile (path : String) (listings : Bool) (s : Session) : IO UInt32 := do
  let (ending, s) ← interpretFile runToEnd listings (← readFile path) s
  let _ ← flushSession s
  IO.eprint ending.errorText
  return ending.exitCode.toUInt32

/-- Interprets lines from the standard input up to an empty one. -/
partial def interactLive (listings : Bool) (s : Session) : IO Unit := do
  let input ← (← IO.getStdin).getLine
  match Text.lines input with
  | [] => return
  | line :: _ =>
    if line.isEmpty then return
    let (outcome, s) ← enter runToEnd listings line s
    if let .error (.compile errors) := outcome then IO.eprint (CompileError.report errors)
    interactLive listings (← flushSession s)

/-- Does what the options ask for; the exit code. -/
def runOptions (options : Options) : IO UInt32 := do
  if options.help then
    IO.print Options.usage
    return 0
  let s := Session.new Native.all .reliable (← secondsNow)
  match options.file? with
  | some path => runFile path options.listings s
  | none =>
    interactLive options.listings (← flushSession (display promptText s))
    return 0

end ScriptVM.Console

/-- The command line program. -/
def main (arguments : List String) : IO UInt32 := do
  match ScriptVM.Console.Options.default.parse arguments with
  | .ok options => ScriptVM.Console.runOptions options
  | .error argument =>
    IO.eprint s!"error: unexpected argument '{argument}' found\n"
    IO.eprint ScriptVM.Console.Options.usage
    return 2
