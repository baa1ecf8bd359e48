/-
# Output

Where programs write.  Any single write may be refused; a refused write is lost and nothing else
happens.
-/

namespace ScriptVM

/-- A place to write to. -/
structure Sink where
  /-- Whether the write with this number, counted from zero, is accepted. -/
  accepts : Nat → Bool
  /-- The number of writes so far. -/
  writes : Nat
  /-- What was accepted so far. -/
  text : String

namespace Sink

/-- A sink that accepts every write. -/
def reliable : Sink :=
  ⟨fun _ => true, 0, ""⟩

/-- A sink that refuses every write. -/
def broken : Sink :=
  ⟨fun _ => false, 0, ""⟩

instance : Inhabited Sink := ⟨reliable⟩

/-- Writes a text. -/
def write (sink : Sink) (text : String) : Sink :=
  { sink with
    writes := sink.writes + 1
    text := if sink.accepts sink.writes then sink.text ++ text else sink.text }

/-- The sink with its text taken away. -/
def drain (sink : Sink) : Sink :=
  { sink with text := "" }

end Sink

end ScriptVM
