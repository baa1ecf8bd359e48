/-
# Expressions

Building the code of an expression.  An expression starts with an operand (`primary`) and goes on
as long as the next token binds at least as tightly as the context asks for (`continuation?`).  The
parts inside an expression are built by `inner`, which stands for the building of any phrase.
-/
import ScriptVM.Decimal.Reader
import ScriptVM.Program.Builder

namespace ScriptVM

/-- How tightly an operator binds, weakest first. -/
inductive Precedence where
  /-- `=` -/
  | assignment
  /-- `||` -/
  | or
  /-- `&&` -/
  | and
  /-- `==` and `!=` -/
  | equality
  /-- `<`, `>`, `<=` and `>=` -/
  | comparison
  /-- `+` and `-` -/
  | term
  /-- `*` and `/` -/
  | factor
  /-- `!` and the sign -/
  | unary
  /-- Calls, subscripts and properties. -/
  | call
deriving DecidableEq, Repr, Inhabited

/-- The rank of a precedence. -/
def Precedence.rank (p : Precedence) : Nat :=
  p.ctorIdx

/-- The phrases that contain each other. -/
inductive Phrase where
  /-- A declaration or statement. -/
  | declaration
  /-- The rest of a conditional statement, from its condition on. -/
  | conditional
  /-- An expression whose operators bind at least this tightly. -/
  | expression (least : Precedence)
deriving DecidableEq, Repr, Inhabited

/-- How an expression goes on behind an operand. -/
inductive Continuation where
  /-- A second operand, which binds at least this tightly, then these instructions. -/
  | binary (operand : Precedence) (ops : List Opcode)
  /-- The second operand counts only if the first is true. -/
  | conjunction
  /-- The second operand counts only if the first is false. -/
  | disjunction
  /-- An argument list. -/
  | call
  /-- A subscript. -/
  | subscript
  /-- A property. -/
  | property
deriving DecidableEq, Repr, Inhabited

/-- How an expression goes on with a token, and how tightly. -/
def continuation? : TokenKind → Option (Precedence × Continuation)
  | .plus => some (.term, .binary .factor [.add])
  | .minus => some (.term, .binary .factor [.subtract])
  | .asterisk => some (.factor, .binary .unary [.multiply])
  | .slash => some (.factor, .binary .unary [.divide])
  | .equalEqual => some (.equality, .binary .comparison [.equal])
  | .bangEqual => some (.equality, .binary .comparison [.notEqual])
  | .greater => some (.comparison, .binary .term [.greater])
  | .greaterEqual => some (.comparison, .binary .term [.less, .not])
  | .less => some (.comparison, .binary .term [.less])
  | .lessEqual => some (.comparison, .binary .term [.greater, .not])
  | .andAnd => some (.and, .conjunction)
  | .orOr => some (.or, .disjunction)
  | .leftParen => some (.call, .call)
  | .leftBracket => some (.call, .subscript)
  | .dot => some (.call, .property)
  | _ => none

/-- The greatest number of parameters, arguments and array elements. -/
def argumentLimit : Nat := 255

namespace Build

variable (inner : Phrase → Build Unit)

/-- An expression of any kind. -/
def anyExpression : Build Unit :=
  inner (.expression .assignment)

/-! ## Lists of expressions -/

/-- One more expression of a list of which `count` are read; whether a comma follows. -/
def listElement (excess : ErrorKind) (count : Nat) : Build Bool := do
  anyExpression inner
  if count = argumentLimit then fail (← get).previous excess
  accept .comma

/-- The rest of a list of expressions of which `count` are read; their number. -/
def listElements (excess : ErrorKind) (count : Nat) : List ScanItem → Build Nat
  | [] => do fail (← peek) .nestingTooDeep
  | _ :: rest => do
    if ← listElement inner excess count then listElements excess (count + 1) rest
    else return count + 1

/-- Expressions divided by commas up to a closing token; their number. -/
def expressionList (excess : ErrorKind) (closing : Expectation) : Build UInt8 := do
  let count ←
    if ← check closing.kind then pure 0
    else do listElements inner excess 0 (← get).pending
  let _ ← expect closing
  return UInt8.ofNat count

/-- The arguments of a call, from behind the opening parenthesis; their number. -/
def arguments : Build UInt8 :=
  expressionList inner .tooManyArguments .parenAfterArguments

/-! ## Operands -/

/-- A number; one with a point is a floating point number. -/
def numberLiteral (token : Token) : Build Unit := do
  let value? :=
    if token.lexeme.toList.contains '.' then (Decimal.read token.lexeme).map Value.number
    else (Decimal.readInt token.lexeme).map Value.int
  match value? with
  | some value => emitWithAt .constant (← constant value) token.line
  | none => fail token .invalidNumber

/-- The text between the quotes of a token. -/
def unquoted (lexeme : String) : String :=
  String.ofList lexeme.toList.tail.dropLast

/-- A text. -/
def stringLiteral (token : Token) : Build Unit := do
  emitWithAt .constant (← constant (.string (unquoted token.lexeme))) token.line

/-- An array. -/
def arrayLiteral (token : Token) : Build Unit := do
  let count ← expressionList inner .tooManyElements .bracketAfterElements
  emitWithAt .arrayLiteral count token.line

/-- An operand with an operator in front. -/
def unary (op : Opcode) (token : Token) : Build Unit := do
  inner (.expression .unary)
  emitAt op token.line

/-- An expression in parentheses. -/
def grouping : Build Unit := do
  anyExpression inner
  let _ ← expect .parenAfterExpression

/-- A variable, or an assignment to it. -/
def variableAccess (token : Token) (canAssign : Bool) : Build Unit := do
  let access ← resolve token
  if ← acceptAssignment canAssign then
    anyExpression inner
    emitWithAt access.setOp access.index token.line
  else
    emitWithAt access.getOp access.index token.line

/-- The instance of the method at hand. -/
def selfAccess (token : Token) : Build Unit := do
  if (← get).classes.isEmpty then fail token .selfOutsideClass
  readVariable token

/-- Complains unless the innermost class has a superclass. -/
def requireSuperclass (token : Token) : Build Unit := do
  match (← get).classes.head? with
  | none => fail token .superOutsideClass
  | some c => if !c.hasSuperclass then fail token .superWithoutSuperclass

/-- A property of the superclass, read or called. -/
def superAccess (token : Token) : Build Unit := do
  requireSuperclass token
  let _ ← expect .dotAfterSuper
  let name ← expect .superMethodName
  let index ← nameConstant name
  readVariable ⟨.selfKw, "self", token.start, token.line⟩
  let superclass : Token := ⟨.superKw, "super", token.start, token.line⟩
  if ← accept .leftParen then
    let count ← arguments inner
    readVariable superclass
    emitWithAt .invokeSuper index name.line
    emitByteAt count name.line
  else
    readVariable superclass
    emitWithAt .getSuper index name.line

/-- The operand that starts with a token. -/
def primary (token : Token) (canAssign : Bool) : Build Unit :=
  match token.kind with
  | .minus => unary inner .negate token
  | .bang => unary inner .not token
  | .number => numberLiteral token
  | .string => stringLiteral token
  | .trueKw => emitAt .pushTrue token.line
  | .falseKw => emitAt .pushFalse token.line
  | .nilKw => emitAt .pushNil token.line
  | .identifier => variableAccess inner token canAssign
  | .selfKw => selfAccess token
  | .superKw => superAccess inner token
  | .leftParen => grouping inner
  | .leftBracket => arrayLiteral inner token
  | _ => fail token .expectedExpression

/-! ## Continuations -/

/-- A second operand of `&&`, skipped if the first is false. -/
def conjunction (token : Token) : Build Unit := do
  let skip ← emitJump .jumpIfFalse token.line
  emitAt .pop token.line
  inner (.expression .and)
  patchJump skip

/-- A second operand of `||`, skipped unless the first is false. -/
def disjunction (token : Token) : Build Unit := do
  let go ← emitJump .jumpIfFalse token.line
  let skip ← emitJump .jump token.line
  patchJump go
  emitAt .pop token.line
  inner (.expression .or)
  patchJump skip

/-- A subscript, which is a call with one argument. -/
def subscript (token : Token) : Build Unit := do
  anyExpression inner
  let _ ← expect .bracketAfterSubscript
  emitWithAt .call 1 token.line

/-- A property, read, assigned or called. -/
def property (canAssign : Bool) : Build Unit := do
  let name ← expect .propertyAfterDot
  let index ← nameConstant name
  if ← acceptAssignment canAssign then
    anyExpression inner
    emitWithAt .setProperty index name.line
  else if ← accept .leftParen then
    let count ← arguments inner
    emitWithAt .invoke index name.line
    emitByteAt count name.line
  else
    emitWithAt .getProperty index name.line

/-- What follows an operand, from behind its first token. -/
def continueWith (token : Token) (canAssign : Bool) : Continuation → Build Unit
  | .binary operand ops => do
    inner (.expression operand)
    ops.forM fun op => emitAt op token.line
  | .conjunction => conjunction inner token
  | .disjunction => disjunction inner token
  | .call => do emitWithAt .call (← arguments inner) token.line
  | .subscript => subscript inner token
  | .property => property inner canAssign

/-- Goes on with the next token if it binds tightly enough; whether it did. -/
def continueOnce (least : Precedence) (canAssign : Bool) : Build Bool := do
  match continuation? (← peek).kind with
  | some (precedence, continuation) =>
    if precedence.rank < least.rank then return false
    let token ← advance
    continueWith inner token canAssign continuation
    return true
  | none => return false

/-- An expression whose operators bind at least as tightly as `least`. -/
def expression (least : Precedence) : Build Unit := do
  let token ← advance
  let canAssign := least = .assignment
  primary inner token canAssign
  repeatWhile (continueOnce inner least canAssign)
  if canAssign then
    let next ← peek
    if next.kind = .equal then fail next .invalidAssignmentTarget

end Build

end ScriptVM
