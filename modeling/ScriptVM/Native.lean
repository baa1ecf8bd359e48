/-
# Native functions

The functions that the machine itself provides.  Which of them a machine offers as global variables
is a list, the registry.
-/

namespace ScriptVM

/-- The functions that the machine provides. -/
inductive Native where
  /-- The time in seconds. -/
  | clock
  /-- Writes the description of a value without a line end. -/
  | write
  /-- A copy of an array with one more element. -/
  | append
  /-- The description of a value as a text. -/
  | describe
deriving DecidableEq, Repr, Inhabited

namespace Native

/-- All native functions. -/
def all : List Native :=
  [.clock, .write, .append, .describe]

/-- The name under which a native function is called. -/
def name : Native → String
  | .clock => "clock"
  | .write => "write"
  | .append => "_append"
  | .describe => "_describe"

/-- The number of arguments of a native function. -/
def arity : Native → UInt8
  | .clock => 0
  | .write => 1
  | .append => 2
  | .describe => 1

/-- The native function of a registry with this name. -/
def find? (registry : List Native) (name : String) : Option Native :=
  registry.find? (·.name = name)

end Native

end ScriptVM
