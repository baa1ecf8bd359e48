/-
# What is wrong with a source

The complaints about a source that does not compile.  Each names its cause, the line, the token at
which it was noticed and the text of that line; a report lists all of them.
-/
import ScriptVM.Chunk
import ScriptVM.Text.Pad
import ScriptVM.Token

namespace ScriptVM

/-- The places at which one particular token has to stand. -/
inductive Expectation where
  /-- The end of a variable declaration. -/
  | semicolonAfterDeclaration
  /-- The name of a class. -/
  | className
  /-- The name of a superclass. -/
  | superclassName
  /-- The start of a class body. -/
  | braceBeforeClass
  /-- The end of a class body. -/
  | braceAfterClass
  /-- The name of a computed property. -/
  | propertyName
  /-- The name of a method. -/
  | methodName
  /-- The start of a parameter list. -/
  | parenAfterFunctionName
  /-- The end of a parameter list. -/
  | parenAfterParameters
  /-- The start of a function body. -/
  | braceBeforeFunction
  /-- The name of a variable. -/
  | variableName
  /-- The end of a print statement. -/
  | semicolonAfterValue
  /-- The end of a block. -/
  | braceAfterBlock
  /-- The start of a conditional block. -/
  | braceAfterIf
  /-- The start of an alternative block. -/
  | braceAfterElse
  /-- The start of a loop body. -/
  | braceAfterWhile
  /-- The end of a return statement. -/
  | semicolonAfterReturn
  /-- The end of an expression statement. -/
  | semicolonAfterExpression
  /-- The end of a grouping. -/
  | parenAfterExpression
  /-- The end of an array literal. -/
  | bracketAfterElements
  /-- The end of a subscript. -/
  | bracketAfterSubscript
  /-- The name of a property that is read. -/
  | propertyAfterDot
  /-- The end of an argument list. -/
  | parenAfterArguments
  /-- The dot of a superclass access. -/
  | dotAfterSuper
  /-- The name in a superclass access. -/
  | superMethodName
deriving DecidableEq, Repr, Inhabited

namespace Expectation

/-- The kind of token that has to stand there. -/
def kind : Expectation → TokenKind
  | .semicolonAfterDeclaration | .semicolonAfterValue | .semicolonAfterReturn
  | .semicolonAfterExpression => .semicolon
  | .className | .superclassName | .propertyName | .methodName | .variableName
  | .propertyAfterDot | .superMethodName => .identifier
  | .braceBeforeClass | .braceBeforeFunction | .braceAfterIf | .braceAfterElse
  | .braceAfterWhile => .leftBrace
  | .braceAfterClass | .braceAfterBlock => .rightBrace
  | .parenAfterFunctionName => .leftParen
  | .parenAfterParameters | .parenAfterExpression | .parenAfterArguments => .rightParen
  | .bracketAfterElements | .bracketAfterSubscript => .rightBracket
  | .dotAfterSuper => .dot

/-- The message if it does not stand there. -/
def message : Expectation → String
  | .semicolonAfterDeclaration => "Expect ';' after variable declaration."
  | .className => "Expect class name."
  | .superclassName => "Expect superclass name."
  | .braceBeforeClass => "Expect '\x7b' before class body."
  | .braceAfterClass => "Expect '\x7d' after class body."
  | .propertyName => "Expect property name."
  | .methodName => "Expect method name."
  | .parenAfterFunctionName => "Expect '(' after function name."
  | .parenAfterParameters => "Expect ')' after parameters."
  | .braceBeforeFunction => "Expect '\x7b' before function body."
  | .variableName => "Expect variable name."
  | .semicolonAfterValue => "Expect ';' after value."
  | .braceAfterBlock => "Expect '\x7d' after block."
  | .braceAfterIf => "Expect '\x7b' after if condition."
  | .braceAfterElse => "Expect '\x7b' after else."
  | .braceAfterWhile => "Expect '\x7b' after while condition."
  | .semicolonAfterReturn => "Expect ';' after return value."
  | .semicolonAfterExpression => "Expect ';' after expression."
  | .parenAfterExpression => "Expect ')' after expression."
  | .bracketAfterElements => "Expect ']' after array elements."
  | .bracketAfterSubscript => "Expect ']' after subscript."
  | .propertyAfterDot => "Expect property name after '.'."
  | .parenAfterArguments => "Expect ')' after arguments."
  | .dotAfterSuper => "Expect '.' after 'super'."
  | .superMethodName => "Expect superclass method name."

end Expectation

/-- The causes of complaints. -/
inductive ErrorKind where
  /-- A part of the source is no token. -/
  | scan (e : ScanError)
  /-- No expression starts with this token. -/
  | expectedExpression
  /-- Another token has to stand here. -/
  | expected (what : Expectation)
  /-- What stands before the equals sign cannot be assigned. -/
  | invalidAssignmentTarget
  /-- The number is no 64-bit integer. -/
  | invalidNumber
  /-- The pool of constants is full. -/
  | tooManyConstants
  /-- There is no slot for another local variable. -/
  | tooManyLocals
  /-- The function captures too many variables. -/
  | tooManyCaptures
  /-- The function has too many parameters. -/
  | tooManyParameters
  /-- The call has too many arguments. -/
  | tooManyArguments
  /-- The array literal has too many elements. -/
  | tooManyElements
  /-- A local variable occurs in its own initial value. -/
  | localInOwnInitializer
  /-- The scope already has a variable of this name. -/
  | duplicateLocal
  /-- There is no call to return from. -/
  | returnFromScript
  /-- An initializer always returns its instance. -/
  | returnFromInitializer
  /-- There is no instance to refer to. -/
  | selfOutsideClass
  /-- There is no class whose superclass could be meant. -/
  | superOutsideClass
  /-- The class has no superclass. -/
  | superWithoutSuperclass
  /-- A class is named as its own superclass. -/
  | inheritFromSelf
  /-- A jump cannot be encoded. -/
  | jump (e : JumpError)
  /-- The source nests deeper than it has tokens, which no source does. -/
  | nestingTooDeep
deriving DecidableEq, Repr, Inhabited

/-- The message about a cause. -/
def ErrorKind.message : ErrorKind → String
  | .scan e => e.message
  | .expectedExpression => "Expect expression."
  | .expected what => what.message
  | .invalidAssignmentTarget => "Invalid assignment target."
  | .invalidNumber => "Invalid number literal."
  | .tooManyConstants => "Too many constants in one chunk."
  | .tooManyLocals => "Too many local variables in function."
  | .tooManyCaptures => "Too many closure variables in function."
  | .tooManyParameters => "Can't have more than 255 parameters."
  | .tooManyArguments => "Can't have more than 255 arguments."
  | .tooManyElements => "Can't have more than 255 array elements."
  | .localInOwnInitializer => "Can't read local variable in its own initializer."
  | .duplicateLocal => "Already a variable with this name in this scope."
  | .returnFromScript => "Can't return from top-level code."
  | .returnFromInitializer => "Can't return from an initializer."
  | .selfOutsideClass => "Can't use 'self' outside of a class."
  | .superOutsideClass => "Can't use 'super' outside of a class."
  | .superWithoutSuperclass => "Can't use 'super' in a class with no superclass."
  | .inheritFromSelf => "A class can't inherit from itself."
  | .jump e => e.message
  | .nestingTooDeep => "Too much nesting."

/-- A complaint about a source. -/
structure CompileError where
  /-- The cause. -/
  kind : ErrorKind
  /-- The line. -/
  line : Nat
  /-- The token at which it was noticed, unless there is no token. -/
  token? : Option Token
  /-- The text of the line, without the blanks around it. -/
  excerpt : String
deriving DecidableEq, Repr, Inhabited

namespace CompileError

/-- Where the message says the fault was noticed. -/
def location (e : CompileError) : String :=
  match e.token? with
  | none => ""
  | some token => if token.kind = .eof then " at end" else s!" at '{token.lexeme}'"

/-- The message of a complaint. -/
def message (e : CompileError) : String :=
  s!"[line {e.line}] Error{e.location}: {e.kind.message}"

/-- A complaint with the line it is about. -/
def entry (e : CompileError) : String :=
  let shown := if e.excerpt.isEmpty then "" else
    Text.padLeft 6 ' ' (toString e.line) ++ " | " ++ e.excerpt ++ "\n"
  e.message ++ "\n" ++ shown

/-- The report of all complaints about a source. -/
def report (errors : List CompileError) : String :=
  let plural := if errors.length = 1 then "" else "s"
  s!"{errors.length} compilation error{plural}\n" ++ String.join (errors.map entry)

end CompileError

end ScriptVM
