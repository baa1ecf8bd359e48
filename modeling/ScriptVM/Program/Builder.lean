/-
# Building a program

The state in which a source becomes code, and the small steps on it: looking at tokens, taking them,
noting complaints, and appending code to the function at hand.  Code is built in one pass over the
tokens, so a step that fails keeps what was done before it.
-/
import ScriptVM.Program.Scope
import ScriptVM.Text.Line

namespace ScriptVM

/-- A class whose body is being read. -/
structure ClassContext where
  /-- Whether it has a superclass. -/
  hasSuperclass : Bool
deriving DecidableEq, Repr, Inhabited

/-- A program under construction. -/
structure Builder where
  /-- The source. -/
  source : String
  /-- The items of the source that are still to be read. -/
  pending : List ScanItem
  /-- The token read last. -/
  previous : Token
  /-- The function at hand. -/
  context : FunctionContext
  /-- The functions around it, innermost first. -/
  enclosing : List FunctionContext
  /-- The classes around, innermost first. -/
  classes : List ClassContext
  /-- The complaints so far. -/
  errors : Array CompileError
  /-- The finished functions. -/
  functions : Array Function
deriving Inhabited

/-- A step of building a program, which fails with one complaint. -/
abbrev Build := EStateM CompileError Builder

namespace Build

/-! ## Complaints -/

/-- The complaint about a token of a source. -/
def errorAt (source : String) (token : Token) (kind : ErrorKind) : CompileError :=
  ⟨kind, token.line, some token, Text.lineAt source token.line⟩

/-- The complaint about a part of a source that is no token. -/
def scanErrorAt (source : String) (e : ScanError) : CompileError :=
  ⟨.scan e, e.line, none, Text.lineAt source e.line⟩

/-- Fails with a complaint about a token. -/
def fail {α : Type} (token : Token) (kind : ErrorKind) : Build α :=
  fun b => .error (errorAt b.source token kind) b

/-- Notes a complaint and goes on. -/
def note (e : CompileError) : Build Unit :=
  modify fun b => { b with errors := b.errors.push e }

/-- Notes a complaint about a token and goes on. -/
def noteAt (token : Token) (kind : ErrorKind) : Build Unit :=
  fun b => note (errorAt b.source token kind) b

/-- The outcome of a step as a value; what the step did is kept either way. -/
def attempt {α : Type} (step : Build α) : Build (Except CompileError α) := fun b =>
  match step b with
  | .ok a b => .ok (.ok a) b
  | .error e b => .ok (.error e) b

/-- Succeeds or fails as an earlier outcome says. -/
def conclude {α : Type} : Except CompileError α → Build α
  | .ok a => pure a
  | .error e => throw e

/-- Fails with a cause found at a token, if there is one. -/
def orFailAt {α : Type} (token : Token) : Except ErrorKind α → Build α
  | .ok a => pure a
  | .error kind => fail token kind

/-! ## Tokens -/

/-- Passes over what is no token, with a complaint for each. -/
def settle (source : String) (errors : Array CompileError) :
    List ScanItem → Array CompileError × List ScanItem
  | .error e :: rest => settle source (errors.push (scanErrorAt source e)) rest
  | items => (errors, items)

/-- The first token of a list of items that starts with one. -/
def firstToken (source : String) (previous : Token) : List ScanItem → Token
  | .ok token :: _ => token
  | _ => ⟨.eof, "", source.utf8ByteSize, previous.line⟩

/-- The next token, which is not taken. -/
def peek : Build Token := fun b =>
  let (errors, pending) := settle b.source b.errors b.pending
  .ok (firstToken b.source b.previous pending) { b with errors, pending }

/-- Takes the next token; the end token stays. -/
def advance : Build Token := do
  let token ← peek
  modify fun b =>
    { b with
      pending := if token.kind = .eof then b.pending else b.pending.tail
      previous := token }
  return token

/-- Whether the next token is of a kind. -/
def check (kind : TokenKind) : Build Bool := do
  return (← peek).kind = kind

/-- Whether the next token is of a kind, or the end. -/
def atEnd (kind : TokenKind) : Build Bool := do
  let token ← peek
  return token.kind = kind || token.kind = .eof

/-- Takes the next token if it is of a kind; whether it was. -/
def accept (kind : TokenKind) : Build Bool := do
  if ← check kind then
    let _ ← advance
    return true
  else
    return false

/-- Takes an equals sign where an assignment is allowed; whether there was one. -/
def acceptAssignment (canAssign : Bool) : Build Bool :=
  if canAssign then accept .equal else return false

/-- Takes the token that has to stand here. -/
def expect (what : Expectation) : Build Token := do
  let token ← peek
  if token.kind = what.kind then advance else fail token (.expected what)

/-! ## Repetition -/

/-- Repeats a step as long as it says so, at most once for each item of a list. -/
def repeatOver (round : Build Bool) : List ScanItem → Build Unit
  | [] => do fail (← peek) .nestingTooDeep
  | _ :: rest => do
    if ← round then repeatOver round rest

/-- Repeats a step as long as it says so.  A round that asks for another takes a token, and the end
token is never taken, so there are at most as many rounds as pending items. -/
def repeatWhile (round : Build Bool) : Build Unit := do
  repeatOver round (← get).pending

/-! ## Code -/

/-- The line of the token read last. -/
def previousLine : Build Nat := do
  return (← get).previous.line

/-- Changes the function at hand. -/
def modifyContext (f : FunctionContext → FunctionContext) : Build Unit :=
  modify fun b => { b with context := f b.context }

/-- Changes the code of the function at hand. -/
def modifyChunk (f : Chunk → Chunk) : Build Unit :=
  modifyContext fun c => { c with function := { c.function with chunk := f c.function.chunk } }

/-- The number of code bytes so far. -/
def codeSize : Build Nat := do
  return (← get).context.function.chunk.size

/-- Appends an opcode. -/
def emitAt (op : Opcode) (line : Nat) : Build Unit :=
  modifyChunk (·.addOpcode op line)

/-- Appends an opcode for the line of the token read last. -/
def emit (op : Opcode) : Build Unit := do
  emitAt op (← previousLine)

/-- Appends an opcode with an operand. -/
def emitWithAt (op : Opcode) (operand : UInt8) (line : Nat) : Build Unit :=
  modifyChunk (·.addInstruction op operand line)

/-- Appends a byte. -/
def emitByteAt (byte : UInt8) (line : Nat) : Build Unit :=
  modifyChunk (·.addByte byte line)

/-- Appends the instructions that end a function without a value of its own: an initializer gives
its instance, any other function `nil`. -/
def emitReturn : Build Unit := do
  let line ← previousLine
  if (← get).context.function.kind = .initializer then emitWithAt .getLocal 0 line
  else emitAt .pushNil line
  emitAt .ret line

/-- Appends a jump whose target is not known yet; its offset. -/
def emitJump (op : Opcode) (line : Nat) : Build Nat := do
  let offset ← codeSize
  modifyChunk (·.addJump op line)
  return offset

/-- Replaces the code, or complains at the token read last. -/
def setChunk : Except JumpError Chunk → Build Unit
  | .ok chunk => modifyChunk fun _ => chunk
  | .error e => do fail (← get).previous (.jump e)

/-- Makes an earlier jump lead here. -/
def patchJump (offset : Nat) : Build Unit := do
  setChunk ((← get).context.function.chunk.patchJump offset)

/-- Appends a jump back to `start`. -/
def emitLoop (start line : Nat) : Build Unit := do
  setChunk ((← get).context.function.chunk.addLoop start line)

/-- The index of a constant, or a complaint at a token if there is no room for it. -/
def constantAt (token : Token) (value : Value) : Build UInt8 := do
  let (index?, chunk) := (← get).context.function.chunk.addConstant value
  modifyChunk fun _ => chunk
  match index? with
  | some index => return index
  | none => fail token .tooManyConstants

/-- The index of a constant that the token read last stands for. -/
def constant (value : Value) : Build UInt8 := do
  constantAt (← get).previous value

/-- The index of the constant that is a name. -/
def nameConstant (name : Token) : Build UInt8 :=
  constantAt name (.string name.lexeme)

/-! ## Variables -/

/-- Adds a local to the current scope. -/
def addLocal (name : String) (token : Token) : Build Unit := do
  let context ← orFailAt token ((← get).context.addLocal name)
  modifyContext fun _ => context

/-- Adds a local variable; at the top level variables are global and nothing is added.  A second
variable of one name in one scope is a complaint, but is added. -/
def declareVariable (name : Token) : Build Unit := do
  let context := (← get).context
  if context.depth ≠ 0 then
    if context.declares name.lexeme then noteAt name .duplicateLocal
    addLocal name.lexeme name

/-- Notes that the innermost local has its initial value. -/
def markInitialized : Build Unit :=
  modifyContext (·.markInitialized)

/-- Binds the value on top to a variable: a global one by its name, a local one by its slot. -/
def defineVariable : Option UInt8 → Build Unit
  | some name => do emitWithAt .defineGlobal name (← previousLine)
  | none => markInitialized

/-- Reads the name of a new variable; for a global one, the index of its name. -/
def variableName : Build (Option UInt8) := do
  let name ← expect .variableName
  declareVariable name
  if (← get).context.depth > 0 then return none else some <$> nameConstant name

/-- How a variable is reached. -/
structure Access where
  /-- The instruction that reads it. -/
  getOp : Opcode
  /-- The instruction that assigns it. -/
  setOp : Opcode
  /-- The slot, the index among the captured variables, or the index of the name. -/
  index : UInt8

/-- How the variable that a token names is reached: a local, one of a function around, or a global
one. -/
def resolve (token : Token) : Build Access := do
  let b ← get
  match ← orFailAt token (b.context.resolveLocal token.lexeme) with
  | some slot => return ⟨.getLocal, .setLocal, slot⟩
  | none =>
    let found := resolveCapture token.lexeme b.context b.enclosing
    modify fun b => { b with context := found.context, enclosing := found.enclosing }
    match ← orFailAt token found.index with
    | some index => return ⟨.getUpvalue, .setUpvalue, index⟩
    | none => return ⟨.getGlobal, .setGlobal, ← nameConstant token⟩

/-- Appends the reading of a variable. -/
def readVariable (token : Token) : Build Unit := do
  let access ← resolve token
  emitWithAt access.getOp access.index token.line

/-! ## Scopes -/

/-- Starts a scope. -/
def beginScope : Build Unit :=
  modifyContext fun c => { c with depth := c.depth + 1 }

/-- The instruction that drops a local. -/
def dropOp (l : Local) : Opcode :=
  if l.captured then .closeUpvalue else .pop

/-- Ends a scope: its locals are dropped, innermost first. -/
def endScope : Build Unit := do
  modifyContext fun c => { c with depth := c.depth - 1 }
  let b ← get
  let ended := b.context.locals.takeWhile (b.context.depth < ·.depth)
  modifyContext fun c => { c with locals := c.locals.drop ended.length }
  ended.forM fun l => emitAt (dropOp l) b.previous.line

/-- Does a step in a scope of its own. -/
def inScope (step : Build Unit) : Build Unit := do
  beginScope
  let outcome ← attempt step
  endScope
  conclude outcome

/-! ## Functions -/

/-- Starts a function inside the one at hand. -/
def beginFunction (name : String) (kind : FunctionKind) : Build Unit :=
  modify fun b =>
    { b with context := .start name kind, enclosing := b.context :: b.enclosing }

/-- Ends the function at hand and goes back to the one around it. -/
def endFunction : Build FunctionContext := do
  emitReturn
  let finished := (← get).context
  modify fun b =>
    match b.enclosing with
    | outer :: rest => { b with context := outer, enclosing := rest }
    | [] => b
  return finished

/-- Keeps a finished function; its reference. -/
def keepFunction (finished : FunctionContext) : Build FunctionId := do
  let id : FunctionId := ⟨(← get).functions.size⟩
  let function := { finished.function with captureCount := finished.captures.size }
  modify fun b => { b with functions := b.functions.push function }
  return id

/-- Appends the making of a closure: its function, and where each captured variable comes from. -/
def emitClosure (finished : FunctionContext) (line : Nat) : Build Unit := do
  let id ← keepFunction finished
  let index ← constant (.functionRef id)
  emitWithAt .closure index line
  finished.captures.forM fun capture => do
    emitByteAt (if capture.isLocal then 1 else 0) line
    emitByteAt capture.index line

end Build

end ScriptVM
