/-
# The code of a syntax tree

Code is built while a source is read, but what is built depends on its syntax tree only.  `build`
says how: it follows the tree, passes over one token where the tree's text has one (`pass`), and
otherwise does what the reader does with that node.  It never looks at a token, so nothing of the
reading is left in it: no precedences, no choice by the next token, no recovery.

Main statement: no part of it withdraws a complaint, so that a clean run of a tree's code is a clean
run of the code of each part (`Decl.cumulative_build`).
-/
import ScriptVM.Proofs.Program.Steps
import ScriptVM.Proofs.Syntax.Grammar

namespace ScriptVM

namespace Build

/-! ## Parts -/

/-- Passes over a token. -/
def pass : Build Unit := do
  let _ ← advance

/-- Skipping a token takes it. -/
theorem Clean.of_pass {b b' : Builder} {u : Unit} (h : Clean pass b u b') : b.take = b' := by
  unfold pass at h
  obtain ⟨_, _, hadvance, h⟩ := h.bind
  obtain ⟨-, rfl⟩ := hadvance.of_advance
  exact h.of_pure.2

/-- Passes over a comma, unless nothing follows. -/
def divide {α : Type} (rest : List α) : Build Unit :=
  if rest.isEmpty then pure () else pass

/-- Complains about a token under a condition. -/
def refuse (token : Token) (kind : ErrorKind) (wrong : Bool) : Build Unit :=
  if wrong then fail token kind else pure ()

/-- Complains if a list has its greatest number of parts already. -/
def limit (excess : ErrorKind) (count : Nat) : Build Unit := do
  refuse (← get).previous excess (count = argumentLimit)

/-- A number, a text, `true`, `false` or `nil`. -/
def literal (token : Token) : Build Unit :=
  match token.kind with
  | .number => numberLiteral token
  | .string => stringLiteral token
  | .trueKw => emitAt .pushTrue token.line
  | .falseKw => emitAt .pushFalse token.line
  | _ => emitAt .pushNil token.line

/-- The instruction of an operator in front of an operand. -/
def signOp (kind : TokenKind) : Opcode :=
  if kind = .minus then .negate else .not

/-- The instructions of an operator between two operands. -/
def signOps (kind : TokenKind) : List Opcode :=
  match continuation? kind with
  | some (_, .binary _ ops) => ops
  | _ => []

/-- A property of the superclass up to its name; the index of the name. -/
def inheritedName (keyword name : Token) : Build UInt8 := do
  pass
  requireSuperclass keyword
  pass
  pass
  let index ← nameConstant name
  readVariable ⟨.selfKw, "self", keyword.start, keyword.line⟩
  return index

/-- The superclass of the method at hand. -/
def readSuperclass (keyword : Token) : Build Unit :=
  readVariable ⟨.superKw, "super", keyword.start, keyword.line⟩

/-- A property up to its name; the index of the name. -/
def propertyName (name : Token) : Build UInt8 := do
  pass
  pass
  nameConstant name

/-- The name of a new variable; for a global one, the index of its name. -/
def newName (name : Token) : Build (Option UInt8) := do
  pass
  declareVariable name
  if (← get).context.depth > 0 then return none else some <$> nameConstant name

/-- Declarations up to the closing brace, in a scope of their own. -/
def enclosed (body : Build Unit) : Build Unit := do
  beginScope
  body
  pass
  endScope

/-- A conditional statement from its condition on. -/
def branch (condition body alternative : Build Unit) : Build Unit := do
  condition
  let line ← previousLine
  pass
  let toElse ← emitJump .jumpIfFalse line
  emitAt .pop line
  enclosed body
  let toEnd ← emitJump .jump line
  landAndDrop toElse line
  alternative
  patchJump toEnd

/-- A loop from its condition on. -/
def cycle (condition body : Build Unit) : Build Unit := do
  let start ← codeSize
  condition
  let line ← previousLine
  pass
  let toEnd ← emitJump .jumpIfFalse line
  emitAt .pop line
  enclosed body
  emitLoop start line
  landAndDrop toEnd line

/-- A return statement, in a function that can have one. -/
def leave (keyword : Token) (value : Build Unit) : Build Unit := do
  pass
  match (← get).context.function.kind with
  | .script => fail keyword .returnFromScript
  | .initializer => fail keyword .returnFromInitializer
  | .function | .method => value

/-- Counts one more parameter. -/
def countParameter : Build Unit := do
  let b ← get
  refuse b.previous .tooManyParameters (b.context.function.arity.toNat = argumentLimit)
  modifyContext fun c => { c with function := { c.function with arity := c.function.arity + 1 } }

/-- Parameters divided by commas. -/
def parameterNames : List Token → Build Unit
  | [] => pure ()
  | name :: names => do
    countParameter
    defineVariable (← newName name)
    divide names
    parameterNames names

/-- A parameter list. -/
def parameterList (names : List Token) : Build Unit := do
  pass
  parameterNames names
  pass

/-- A function from behind its name, and the making of a closure of it. -/
def routine (name : String) (kind : FunctionKind) (parameters body : Build Unit) : Build Unit := do
  let line ← previousLine
  beginFunction name kind
  beginScope
  parameters
  pass
  body
  pass
  emitClosure (← endFunction) line

/-- What a method is. -/
def methodKind (name : Token) : FunctionKind :=
  if name.lexeme = "init" then .initializer else .method

/-- The superclass of a class, from the colon on. -/
def parentClass (name parent : Token) : Build Unit := do
  pass
  pass
  refuse parent .inheritFromSelf (parent.lexeme = name.lexeme)
  readVariable parent
  beginScope
  markSuperclass
  addLocal "super" parent
  defineVariable none
  readVariable name
  emitAt .inherit parent.line

/-- The name of a class, and the making of it. -/
def newClass (name : Token) : Build Unit := do
  pass
  let index ← nameConstant name
  declareVariable name
  emitWithAt .newClass index name.line
  defineVariable (if (← get).context.depth = 0 then some index else none)

/-- A class, from its name on. -/
def classOf (name : Token) (parent members : Build Unit) : Build Unit := do
  newClass name
  beginClass
  parent
  readVariable name
  pass
  members
  pass
  emit .pop
  endClass

end Build

open Build

/-! ## Trees -/

mutual

/-- The code of an expression. -/
def Expr.build : Expr → Build Unit
  | .literal token => do
    pass
    Build.literal token
  | .ident token => do
    pass
    readVariable token
  | .this keyword => do
    pass
    selfAccess keyword
  | .inherited keyword name => do
    let index ← inheritedName keyword name
    readSuperclass keyword
    emitWithAt .getSuper index name.line
  | .inheritedCall keyword name arguments => do
    let index ← inheritedName keyword name
    pass
    Expr.buildList .tooManyArguments 0 arguments
    pass
    readSuperclass keyword
    emitWithAt .invokeSuper index name.line
    emitByteAt (UInt8.ofNat arguments.length) name.line
  | .grouping inner => do
    pass
    inner.build
    pass
  | .array bracket elements => do
    pass
    Expr.buildList .tooManyElements 0 elements
    pass
    emitWithAt .arrayLiteral (UInt8.ofNat elements.length) bracket.line
  | .unary sign operand => do
    pass
    operand.build
    emitAt (signOp sign.kind) sign.line
  | .binary left sign right => do
    left.build
    pass
    right.build
    (signOps sign.kind).forM fun op => emitAt op sign.line
  | .conjunction left sign right => do
    left.build
    pass
    let skip ← emitJump .jumpIfFalse sign.line
    emitAt .pop sign.line
    right.build
    patchJump skip
  | .disjunction left sign right => do
    left.build
    pass
    let go ← emitJump .jumpIfFalse sign.line
    let skip ← emitJump .jump sign.line
    patchJump go
    emitAt .pop sign.line
    right.build
    patchJump skip
  | .call callee paren arguments => do
    callee.build
    pass
    Expr.buildList .tooManyArguments 0 arguments
    pass
    emitWithAt .call (UInt8.ofNat arguments.length) paren.line
  | .subscript callee bracket index => do
    callee.build
    pass
    index.build
    pass
    emitWithAt .call 1 bracket.line
  | .property receiver name => do
    receiver.build
    let index ← propertyName name
    emitWithAt .getProperty index name.line
  | .methodCall receiver name arguments => do
    receiver.build
    let index ← propertyName name
    pass
    Expr.buildList .tooManyArguments 0 arguments
    pass
    emitWithAt .invoke index name.line
    emitByteAt (UInt8.ofNat arguments.length) name.line
  | .assign name value => do
    pass
    let access ← resolve name
    pass
    value.build
    emitWithAt access.setOp access.index name.line
  | .setProperty receiver name value => do
    receiver.build
    let index ← propertyName name
    pass
    value.build
    emitWithAt .setProperty index name.line

/-- The code of expressions divided by commas, of a list of which `count` are read. -/
def Expr.buildList (excess : ErrorKind) (count : Nat) : List Expr → Build Unit
  | [] => pure ()
  | e :: es => do
    e.build
    limit excess count
    divide es
    Expr.buildList excess (count + 1) es

end

mutual

/-- The code of a declaration or statement. -/
def Decl.build : Decl → Build Unit
  | .classDecl name none members => do
    pass
    classOf name (pure ()) (Member.buildAll members)
  | .classDecl name (some parent) members => do
    pass
    classOf name (parentClass name parent) (Member.buildAll members)
  | .func name parameters body => do
    pass
    let name? ← newName name
    let label := (← get).previous.lexeme
    markInitialized
    routine label .function (parameterList parameters) (Decl.buildAll body)
    defineVariable name?
  | .var name none => do
    pass
    let name? ← newName name
    emit .pushNil
    pass
    defineVariable name?
  | .var name (some value) => do
    pass
    let name? ← newName name
    pass
    value.build
    pass
    defineVariable name?
  | .print keyword value => do
    pass
    value.build
    pass
    emitAt .print keyword.line
  | .leave keyword none =>
    Build.leave keyword do
      pass
      emitReturn
  | .leave keyword (some value) =>
    Build.leave keyword do
      value.build
      pass
      emitAt .ret keyword.line
  | .ifThen condition body => do
    pass
    branch condition.build (Decl.buildAll body) (pure ())
  | .ifElse condition body alternative => do
    pass
    branch condition.build (Decl.buildAll body) do
      pass
      alternative.build
  | .loop condition body => do
    pass
    cycle condition.build (Decl.buildAll body)
  | .block body => do
    pass
    enclosed (Decl.buildAll body)
  | .expression value => do
    value.build
    pass
    emit .pop

/-- The code of declarations in a row. -/
def Decl.buildAll : List Decl → Build Unit
  | [] => pure ()
  | d :: ds => do
    d.build
    Decl.buildAll ds

/-- The code of a member of a class. -/
def Member.build : Member → Build Unit
  | .property name body => do
    pass
    pass
    let index ← nameConstant name
    routine name.lexeme .method (pure ()) (Decl.buildAll body)
    emitWithAt .computedProperty index name.line
  | .method name parameters body => do
    pass
    let index ← nameConstant name
    routine name.lexeme (methodKind name) (parameterList parameters) (Decl.buildAll body)
    emitWithAt .method index name.line

/-- The code of members in a row. -/
def Member.buildAll : List Member → Build Unit
  | [] => pure ()
  | m :: ms => do
    m.build
    Member.buildAll ms

end

/-- The code of a conditional statement, from its condition on. -/
def Decl.buildConditional : Decl → Build Unit
  | .ifThen condition body => branch condition.build (Decl.buildAll body) (pure ())
  | .ifElse condition body alternative =>
    branch condition.build (Decl.buildAll body) do
      pass
      alternative.build
  | _ => pure ()

/-! ## Complaints are kept -/

-- The longest trees are sequences of a dozen steps.
set_option synthInstance.maxSize 2048

namespace Build

instance : Cumulative pass := by
  unfold pass
  infer_instance

instance {α : Type} (rest : List α) : Cumulative (divide rest) := by
  unfold divide
  infer_instance

instance (token : Token) (kind : ErrorKind) (wrong : Bool) :
    Cumulative (refuse token kind wrong) := by
  unfold refuse
  infer_instance

instance (excess : ErrorKind) (count : Nat) : Cumulative (limit excess count) := by
  unfold limit
  infer_instance

instance (token : Token) : Cumulative (literal token) := by
  unfold literal
  split <;> infer_instance

instance (keyword name : Token) : Cumulative (inheritedName keyword name) := by
  unfold inheritedName
  infer_instance

instance (keyword : Token) : Cumulative (readSuperclass keyword) := by
  unfold readSuperclass
  infer_instance

instance (name : Token) : Cumulative (propertyName name) := by
  unfold propertyName
  infer_instance

instance (name : Token) : Cumulative (newName name) := by
  unfold newName
  infer_instance

instance (body : Build Unit) [Cumulative body] : Cumulative (enclosed body) := by
  unfold enclosed
  infer_instance

instance (condition body alternative : Build Unit) [Cumulative condition] [Cumulative body]
    [Cumulative alternative] : Cumulative (branch condition body alternative) := by
  unfold branch
  infer_instance

instance (condition body : Build Unit) [Cumulative condition] [Cumulative body] :
    Cumulative (cycle condition body) := by
  unfold cycle
  infer_instance

instance (keyword : Token) (value : Build Unit) [Cumulative value] :
    Cumulative (leave keyword value) := by
  unfold leave
  refine cumulative_bind inferInstance fun _ => cumulative_bind inferInstance fun b => ?_
  split <;> infer_instance

instance : Cumulative countParameter := by
  unfold countParameter
  infer_instance

instance (names : List Token) : Cumulative (parameterNames names) := by
  induction names with
  | nil =>
    unfold parameterNames
    infer_instance
  | cons name names ih =>
    unfold parameterNames
    infer_instance

instance (names : List Token) : Cumulative (parameterList names) := by
  unfold parameterList
  infer_instance

instance (name : String) (kind : FunctionKind) (parameters body : Build Unit)
    [Cumulative parameters] [Cumulative body] : Cumulative (routine name kind parameters body) := by
  unfold routine
  infer_instance

instance (name parent : Token) : Cumulative (parentClass name parent) := by
  unfold parentClass
  infer_instance

instance (name : Token) : Cumulative (newClass name) := by
  unfold newClass
  infer_instance

instance (name : Token) (parent members : Build Unit) [Cumulative parent] [Cumulative members] :
    Cumulative (classOf name parent members) := by
  unfold classOf
  infer_instance

end Build

mutual

/-- No expression withdraws a complaint. -/
theorem Expr.cumulative_build (e : Expr) : Cumulative e.build := by
  cases e with
  | literal _ | ident _ | this _ | inherited _ _ =>
    unfold Expr.build
    infer_instance
  | inheritedCall _ _ es | array _ es =>
    have := fun excess => Expr.cumulative_buildList excess 0 es
    unfold Expr.build
    infer_instance
  | grouping e | unary _ e | property e _ | assign _ e =>
    have := Expr.cumulative_build e
    unfold Expr.build
    infer_instance
  | binary l _ r | conjunction l _ r | disjunction l _ r | subscript l _ r | setProperty l _ r =>
    have := Expr.cumulative_build l
    have := Expr.cumulative_build r
    unfold Expr.build
    infer_instance
  | call e _ es | methodCall e _ es =>
    have := Expr.cumulative_build e
    have := fun excess => Expr.cumulative_buildList excess 0 es
    unfold Expr.build
    infer_instance

/-- No list of expressions withdraws a complaint. -/
theorem Expr.cumulative_buildList (excess : ErrorKind) (count : Nat) (es : List Expr) :
    Cumulative (Expr.buildList excess count es) := by
  cases es with
  | nil =>
    unfold Expr.buildList
    infer_instance
  | cons e es =>
    have := Expr.cumulative_build e
    have := Expr.cumulative_buildList excess (count + 1) es
    unfold Expr.buildList
    infer_instance

end

instance (e : Expr) : Cumulative e.build := e.cumulative_build

instance (excess : ErrorKind) (count : Nat) (es : List Expr) :
    Cumulative (Expr.buildList excess count es) :=
  Expr.cumulative_buildList excess count es

mutual

/-- **No declaration withdraws a complaint.** -/
theorem Decl.cumulative_build (d : Decl) : Cumulative d.build := by
  cases d with
  | classDecl _ parent ms =>
    have := Member.cumulative_buildAll ms
    cases parent <;> (unfold Decl.build; infer_instance)
  | var _ initial | leave _ initial => cases initial <;> (unfold Decl.build; infer_instance)
  | print _ _ | expression _ =>
    unfold Decl.build
    infer_instance
  | func _ _ ds | ifThen _ ds | loop _ ds | block ds =>
    have := Decl.cumulative_buildAll ds
    unfold Decl.build
    infer_instance
  | ifElse _ ds d =>
    have := Decl.cumulative_buildAll ds
    have := Decl.cumulative_build d
    unfold Decl.build
    infer_instance

/-- No row of declarations withdraws a complaint. -/
theorem Decl.cumulative_buildAll (ds : List Decl) : Cumulative (Decl.buildAll ds) := by
  cases ds with
  | nil =>
    unfold Decl.buildAll
    infer_instance
  | cons d ds =>
    have := Decl.cumulative_build d
    have := Decl.cumulative_buildAll ds
    unfold Decl.buildAll
    infer_instance

/-- No member withdraws a complaint. -/
theorem Member.cumulative_build (m : Member) : Cumulative m.build := by
  cases m with
  | property _ ds | method _ _ ds =>
    have := Decl.cumulative_buildAll ds
    unfold Member.build
    infer_instance

/-- No row of members withdraws a complaint. -/
theorem Member.cumulative_buildAll (ms : List Member) : Cumulative (Member.buildAll ms) := by
  cases ms with
  | nil =>
    unfold Member.buildAll
    infer_instance
  | cons m ms =>
    have := Member.cumulative_build m
    have := Member.cumulative_buildAll ms
    unfold Member.buildAll
    infer_instance

end

instance (d : Decl) : Cumulative d.build := d.cumulative_build

instance (ds : List Decl) : Cumulative (Decl.buildAll ds) := Decl.cumulative_buildAll ds

instance (m : Member) : Cumulative m.build := m.cumulative_build

instance (ms : List Member) : Cumulative (Member.buildAll ms) := Member.cumulative_buildAll ms

instance (d : Decl) : Cumulative d.buildConditional := by
  cases d <;> (unfold Decl.buildConditional; infer_instance)

end ScriptVM
