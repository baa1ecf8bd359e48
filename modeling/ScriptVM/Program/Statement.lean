/-
# Statements and declarations

Building the code of statements and declarations.  A declaration that fails is a complaint, and
reading goes on at the next place where a statement is likely to start.
-/
import ScriptVM.Program.Expression

namespace ScriptVM.Build

variable (inner : Phrase → Build Unit)

/-! ## Blocks -/

/-- One declaration of a block, unless the block ends here; whether there was one. -/
def blockRound (closing : TokenKind) : Build Bool := do
  if ← atEnd closing then return false
  inner .declaration
  return true

/-- The declarations up to the end of a block, from behind its opening brace. -/
def block : Build Unit := do
  repeatWhile (blockRound inner .rightBrace)
  let _ ← expect .braceAfterBlock

/-! ## Statements -/

/-- The end of an earlier jump, in front of the instruction that drops the condition. -/
def landAndDrop (jump line : Nat) : Build Unit := do
  patchJump jump
  emitAt .pop line

/-- The alternative of a conditional statement, if there is one. -/
def alternative : Build Unit := do
  if ← accept .elseKw then
    if ← accept .ifKw then
      inner .conditional
    else
      let _ ← expect .braceAfterElse
      inScope (block inner)

/-- A conditional statement, from its condition on. -/
def conditional : Build Unit := do
  anyExpression inner
  let line ← previousLine
  let _ ← expect .braceAfterIf
  let toElse ← emitJump .jumpIfFalse line
  emitAt .pop line
  inScope (block inner)
  let toEnd ← emitJump .jump line
  landAndDrop toElse line
  alternative inner
  patchJump toEnd

/-- A loop, from its condition on. -/
def whileLoop : Build Unit := do
  let start ← codeSize
  anyExpression inner
  let line ← previousLine
  let _ ← expect .braceAfterWhile
  let toEnd ← emitJump .jumpIfFalse line
  emitAt .pop line
  inScope (block inner)
  emitLoop start line
  landAndDrop toEnd line

/-- A return statement, from behind its keyword. -/
def returnStatement (keyword : Token) : Build Unit := do
  match (← get).context.function.kind with
  | .script => fail keyword .returnFromScript
  | .initializer => fail keyword .returnFromInitializer
  | .function | .method =>
    if ← accept .semicolon then
      emitReturn
    else
      anyExpression inner
      let _ ← expect .semicolonAfterReturn
      emitAt .ret keyword.line

/-- A print statement, from behind its keyword. -/
def printStatement (keyword : Token) : Build Unit := do
  anyExpression inner
  let _ ← expect .semicolonAfterValue
  emitAt .print keyword.line

/-- An expression whose value is dropped. -/
def expressionStatement : Build Unit := do
  anyExpression inner
  let semicolon ← expect .semicolonAfterExpression
  emitAt .pop semicolon.line

/-- A statement. -/
def statement : Build Unit := do
  let token ← peek
  match token.kind with
  | .printKw => do
    let _ ← advance
    printStatement inner token
  | .ifKw => do
    let _ ← advance
    inner .conditional
  | .whileKw => do
    let _ ← advance
    whileLoop inner
  | .returnKw => do
    let _ ← advance
    returnStatement inner token
  | .leftBrace => do
    let _ ← advance
    inScope (block inner)
  | _ => expressionStatement inner

/-! ## Functions -/

/-- One parameter; whether a comma follows. -/
def parameter : Build Bool := do
  let function := (← get).context.function
  if function.arity.toNat = argumentLimit then fail (← peek) .tooManyParameters
  modifyContext fun c => { c with function := { c.function with arity := c.function.arity + 1 } }
  let name? ← variableName
  defineVariable name?
  accept .comma

/-- A parameter list. -/
def parameters : Build Unit := do
  let _ ← expect .parenAfterFunctionName
  if !(← check .rightParen) then repeatWhile parameter
  let _ ← expect .parenAfterParameters

/-- The parameters and the body of a function.  Its scope is never ended, since a call drops its
stack slots as a whole. -/
def functionBody (hasParameters : Bool) : Build Unit := do
  beginScope
  if hasParameters then parameters
  let _ ← expect .braceBeforeFunction
  block inner

/-- A function from behind its name, and the making of a closure of it. -/
def function (name : String) (kind : FunctionKind) (hasParameters : Bool) : Build Unit := do
  let line ← previousLine
  beginFunction name kind
  let outcome ← attempt (functionBody inner hasParameters)
  let finished ← endFunction
  conclude outcome
  emitClosure finished line

/-! ## Declarations -/

/-- A variable declaration, from behind its keyword. -/
def variableDeclaration : Build Unit := do
  let name? ← variableName
  if ← accept .equal then anyExpression inner else emit .pushNil
  let _ ← expect .semicolonAfterDeclaration
  defineVariable name?

/-- A function declaration, from behind its keyword.  The function can refer to itself. -/
def functionDeclaration : Build Unit := do
  let name? ← variableName
  let name := (← get).previous.lexeme
  markInitialized
  function inner name .function true
  defineVariable name?

/-- A member of a class: a computed property or a method. -/
def member : Build Unit := do
  if ← accept .varKw then
    let name ← expect .propertyName
    let index ← nameConstant name
    function inner name.lexeme .method false
    emitWithAt .computedProperty index name.line
  else
    let name ← expect .methodName
    let index ← nameConstant name
    function inner name.lexeme (if name.lexeme = "init" then .initializer else .method) true
    emitWithAt .method index name.line

/-- One member of a class, unless the class ends here; whether there was one. -/
def memberRound : Build Bool := do
  if ← atEnd .rightBrace then return false
  member inner
  return true

/-- Notes that the innermost class has a superclass. -/
def markSuperclass : Build Unit :=
  modify fun b =>
    match b.classes with
    | _ :: rest => { b with classes := ⟨true⟩ :: rest }
    | [] => b

/-- The superclass of a class, from behind the colon.  It lives in a scope of its own, so that the
methods can capture it. -/
def superclass (name : Token) : Build Unit := do
  let parent ← expect .superclassName
  if parent.lexeme = name.lexeme then fail parent .inheritFromSelf
  readVariable parent
  beginScope
  markSuperclass
  addLocal "super" parent
  defineVariable none
  readVariable name
  emitAt .inherit parent.line

/-- The superclass, if there is one, and the members of a class. -/
def classBody (name : Token) : Build Unit := do
  if ← accept .colon then superclass name
  readVariable name
  let _ ← expect .braceBeforeClass
  repeatWhile (memberRound inner)
  let _ ← expect .braceAfterClass
  emit .pop

/-- Starts the body of a class. -/
def beginClass : Build Unit :=
  modify fun b => { b with classes := ⟨false⟩ :: b.classes }

/-- Ends the body of a class, and the scope of its superclass if it has one. -/
def endClass : Build Unit := do
  let classes := (← get).classes
  modify fun b => { b with classes := classes.tail }
  if classes.head?.any (·.hasSuperclass) then endScope

/-- A class declaration, from behind its keyword. -/
def classDeclaration : Build Unit := do
  let name ← expect .className
  let index ← nameConstant name
  declareVariable name
  emitWithAt .newClass index name.line
  defineVariable (if (← get).context.depth = 0 then some index else none)
  beginClass
  let outcome ← attempt (classBody inner name)
  endClass
  conclude outcome

/-! ## Recovery -/

/-- The tokens with which a statement is likely to start. -/
def startsStatement : TokenKind → Bool
  | .classKw | .funcKw | .varKw | .ifKw | .whileKw | .printKw | .returnKw => true
  | _ => false

/-- Passes over one token, unless a statement starts here; whether to go on. -/
def synchronizeRound : Build Bool := do
  let token ← peek
  if token.kind = .eof || startsStatement token.kind then return false
  let _ ← advance
  return token.kind ≠ .semicolon

/-- Passes over tokens up to the next likely start of a statement. -/
def synchronize : Build Unit :=
  repeatWhile synchronizeRound

/-- A declaration or statement, which may fail. -/
def tryDeclaration : Build Unit := do
  match (← peek).kind with
  | .classKw => do
    let _ ← advance
    classDeclaration inner
  | .funcKw => do
    let _ ← advance
    functionDeclaration inner
  | .varKw => do
    let _ ← advance
    variableDeclaration inner
  | _ => statement inner

/-- A declaration or statement; if it fails, that is noted, and its rest is passed over. -/
def declaration : Build Unit := do
  match ← attempt (tryDeclaration inner) with
  | .ok _ => return
  | .error e => do
    note e
    synchronize

end ScriptVM.Build
