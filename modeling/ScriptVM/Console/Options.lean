/-
# Command line options

What the command line asks for: a file to run, or the interactive loop without one, and whether to
show listings before sources run.
-/

namespace ScriptVM.Console

/-- What the command line asks for. -/
structure Options where
  /-- The file to run, if any. -/
  file? : Option String
  /-- Whether listings are shown. -/
  listings : Bool
  /-- Whether only the usage is asked for. -/
  help : Bool
deriving DecidableEq, Repr

namespace Options

/-- What an empty command line asks for. -/
def default : Options :=
  ⟨none, false, false⟩

/-- How the program is used. -/
def usage : String :=
  "Usage: [-f FILE | --file FILE] [-d | --disassemble] [-v | --verbose]... [-h | --help]\n" ++
  "Runs a script, or an interactive loop without a file\n"

/-- Whether an argument only asks for more log messages. -/
def isVerbosity (argument : String) : Bool :=
  argument = "--verbose" ||
    match argument.toList with
    | '-' :: 'v' :: rest => rest.all (· = 'v')
    | _ => false

/-- Reads a list of arguments; the first one that means nothing is the error. -/
def parse (options : Options) : List String → Except String Options
  | [] => .ok options
  | argument :: rest =>
    if argument = "-d" || argument = "--disassemble" then
      parse { options with listings := true } rest
    else if argument = "-h" || argument = "--help" then parse { options with help := true } rest
    else if isVerbosity argument then parse options rest
    else if argument = "-f" || argument = "--file" then
      match rest with
      | path :: rest => parse { options with file? := some path } rest
      | [] => .error argument
    else .error argument

end Options

end ScriptVM.Console
