import ScriptVM.Bindings
import ScriptVM.Chunk.Listing
import ScriptVM.Console
import ScriptVM.Decimal.Reader
import ScriptVM.Decimal.Shortest
import ScriptVM.Machine.Run
import ScriptVM.Main
import ScriptVM.Opcode
import ScriptVM.Program
import ScriptVM.Proofs.Chunk.Constants
import ScriptVM.Proofs.Chunk.Decoded
import ScriptVM.Proofs.Chunk.Flow
import ScriptVM.Proofs.Chunk.Instruction
import ScriptVM.Proofs.Decimal.Conversion
import ScriptVM.Proofs.Decimal.Rational
import ScriptVM.Proofs.Imperative.Compilation
import ScriptVM.Proofs.Imperative.Evaluation
import ScriptVM.Proofs.Imperative.Literals
import ScriptVM.Proofs.Imperative.Meaning
import ScriptVM.Proofs.Imperative.Simulation
import ScriptVM.Proofs.Machine.Agreement
import ScriptVM.Proofs.Machine.Calls
import ScriptVM.Proofs.Machine.Captors
import ScriptVM.Proofs.Machine.Captured
import ScriptVM.Proofs.Machine.Changes
import ScriptVM.Proofs.Machine.Declarations
import ScriptVM.Proofs.Machine.Depth
import ScriptVM.Proofs.Machine.EmbeddedRuns
import ScriptVM.Proofs.Machine.Execution
import ScriptVM.Proofs.Machine.Hierarchy
import ScriptVM.Proofs.Machine.Invocation
import ScriptVM.Proofs.Machine.Ledger
import ScriptVM.Proofs.Machine.Nested
import ScriptVM.Proofs.Machine.Patching
import ScriptVM.Proofs.Machine.Pending
import ScriptVM.Proofs.Machine.Pointer
import ScriptVM.Proofs.Machine.Rebasing
import ScriptVM.Proofs.Machine.RenamedInstructions
import ScriptVM.Proofs.Machine.RenamedPrimitives
import ScriptVM.Proofs.Machine.RenamedRuns
import ScriptVM.Proofs.Machine.Renaming
import ScriptVM.Proofs.Machine.Running
import ScriptVM.Proofs.Machine.Seats
import ScriptVM.Proofs.Machine.Sinks
import ScriptVM.Proofs.Machine.Sound
import ScriptVM.Proofs.Machine.Steps
import ScriptVM.Proofs.Machine.Succession
import ScriptVM.Proofs.Machine.Timed
import ScriptVM.Proofs.Machine.Typed
import ScriptVM.Proofs.Machine.Variables
import ScriptVM.Proofs.Machine.World
import ScriptVM.Proofs.Program.Classes
import ScriptVM.Proofs.Program.Compiled
import ScriptVM.Proofs.Program.Complaints
import ScriptVM.Proofs.Program.Continuing
import ScriptVM.Proofs.Program.Expressions
import ScriptVM.Proofs.Program.Functions
import ScriptVM.Proofs.Program.Growth
import ScriptVM.Proofs.Program.Joining
import ScriptVM.Proofs.Program.Layout
import ScriptVM.Proofs.Program.Lexical
import ScriptVM.Proofs.Program.Marking
import ScriptVM.Proofs.Program.Nesting
import ScriptVM.Proofs.Program.RelocatedBuilders
import ScriptVM.Proofs.Program.Reports
import ScriptVM.Proofs.Program.Scopes
import ScriptVM.Proofs.Program.Scripts
import ScriptVM.Proofs.Program.Statements
import ScriptVM.Proofs.Program.Steps
import ScriptVM.Proofs.Program.Termination
import ScriptVM.Proofs.Program.Verified
import ScriptVM.Proofs.Session.Arrays
import ScriptVM.Proofs.Session.Backtrace
import ScriptVM.Proofs.Session.Captured
import ScriptVM.Proofs.Session.Finished
import ScriptVM.Proofs.Session.Fixed
import ScriptVM.Proofs.Session.Lasting
import ScriptVM.Proofs.Session.Lines
import ScriptVM.Proofs.Session.OpenCells
import ScriptVM.Proofs.Session.Output
import ScriptVM.Proofs.Session.Overriding
import ScriptVM.Proofs.Session.Prelude
import ScriptVM.Proofs.Session.Quiescence
import ScriptVM.Proofs.Session.Receivers
import ScriptVM.Proofs.Session.Scripts
import ScriptVM.Proofs.Session.Shielding
import ScriptVM.Proofs.Session.Soundness
import ScriptVM.Proofs.Session.Superclasses
import ScriptVM.Proofs.Syntax.Acceptance
import ScriptVM.Proofs.Syntax.Account
import ScriptVM.Proofs.Syntax.Charging
import ScriptVM.Proofs.Syntax.Checking
import ScriptVM.Proofs.Syntax.Closing
import ScriptVM.Proofs.Syntax.Generation
import ScriptVM.Proofs.Syntax.Grammar
import ScriptVM.Proofs.Syntax.Parsing
import ScriptVM.Proofs.Syntax.Reading
import ScriptVM.Proofs.Syntax.Recognition
import ScriptVM.Proofs.Syntax.RelocatedSteps
import ScriptVM.Proofs.Syntax.Relocation
import ScriptVM.Proofs.Syntax.Translation
import ScriptVM.Proofs.Token.Joining
import ScriptVM.Proofs.Token.Lines
import ScriptVM.Proofs.Token.Munching
import ScriptVM.Proofs.Token.Names
import ScriptVM.Proofs.Token.Numerals
import ScriptVM.Proofs.Token.Tiling
import ScriptVM.Proofs.Value.Equality
import ScriptVM.Proofs.Value.Order
import ScriptVM.Proofs.Value.Renaming
import ScriptVM.Stack
import ScriptVM.Text.Cluster
import ScriptVM.Text.Line
import ScriptVM.Text.Quoted
import ScriptVM.Token.Scan
import ScriptVM.Value.Arithmetic
import ScriptVM.Value.Text
