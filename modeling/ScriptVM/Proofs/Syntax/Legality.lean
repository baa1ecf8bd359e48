/-
# The static rules

What a source has to satisfy beyond the grammar, said of its syntax tree.  A rule looks at a place
in the source through its `Site`: the function and the classes around, and the variables that can be
seen.  What a function may hold is limited, so each part of a tree has a `Cost`: the bytes of its
code, the constants it refers to, the functions it creates, and the variables it captures.

* `Expr.Legal`, `Decl.Legal` and `Member.Legal` are the rules: no variable is declared twice in one
  block or mentioned in its own initial value, `return`, `self` and `super` stand where they mean
  something, no class is its own superclass, numbers have a value, and lists and jumps are not too
  long.
* `Cost.Within` are the limits of one function.
* `Decl.LegalProgram` are the rules for a whole source.
-/
import ScriptVM.Proofs.Syntax.Translation

namespace ScriptVM

/-! ## Places -/

/-- What can be seen from a place in a source. -/
structure Site where
  /-- What the function at hand is. -/
  kind : FunctionKind
  /-- The blocks of that function around the place, innermost first, each with the variables that
  are declared there, newest first. -/
  scopes : List (List String)
  /-- The local whose initial value is being computed. -/
  initializing : Option String
  /-- The local variables of the functions around, innermost function first. -/
  outer : List (List String)
  /-- Whether each class around has a superclass, innermost class first. -/
  classes : List Bool

namespace Site

/-- The top level of a source. -/
def start : Site where
  kind := .script
  scopes := []
  initializing := none
  outer := []
  classes := []

/-- The locals of the function at hand, newest first.  The oldest is the function itself, or the
instance of a method. -/
def locals (site : Site) : List String :=
  site.scopes.flatten ++ [FunctionContext.receiverName site.kind]

/-- The place behind a declaration.  Outside of all blocks a variable is global. -/
def declare (site : Site) (name : String) : Site :=
  match site.scopes with
  | [] => site
  | scope :: rest => { site with scopes := (name :: scope) :: rest }

/-- The place behind declarations. -/
def declareAll (site : Site) (names : List String) : Site :=
  names.foldl declare site

/-- The place in the initial value of a variable. -/
def declaring (site : Site) (name : String) : Site :=
  if site.scopes = [] then site else { site.declare name with initializing := some name }

/-- The place at the start of a block. -/
def enter (site : Site) : Site :=
  { site with scopes := [] :: site.scopes }

/-- The place at the start of a function, whose parameters and body are one block. -/
def inFunction (site : Site) (kind : FunctionKind) : Site where
  kind := kind
  scopes := [[]]
  initializing := none
  outer := site.locals :: site.outer
  classes := site.classes

/-- The place at the start of a function's body. -/
def inBody (site : Site) (kind : FunctionKind) (parameters : List Token) : Site :=
  (site.inFunction kind).declareAll (parameters.map (·.lexeme))

/-- The place among the members of a class.  The superclass is a variable of a block of its own. -/
def inClass (site : Site) (parent : Option Token) : Site :=
  match parent with
  | none => { site with classes := false :: site.classes }
  | some _ => { site with scopes := ["super"] :: site.scopes, classes := true :: site.classes }

/-- A variable may be declared: it is global, or the first of its name in its block, and there is a
slot for it. -/
def Free (site : Site) (name : String) : Prop :=
  match site.scopes with
  | [] => True
  | scope :: _ => name ∉ scope ∧ site.locals.length < 256

/-- Variables may be declared one after the other. -/
def FreeAll (site : Site) : List String → Prop
  | [] => True
  | name :: names => site.Free name ∧ (site.declare name).FreeAll names

/-- A variable may be mentioned: it is not the one whose initial value is being computed. -/
def Usable (site : Site) (name : String) : Prop :=
  site.initializing ≠ some name

end Site

/-! ## What a function holds -/

/-- The elements of a list that no earlier one can stand for. -/
def distinct {α : Type} (same : α → α → Bool) (xs : List α) : List α :=
  xs.foldl (fun kept x => if kept.any (same · x) then kept else kept ++ [x]) []

/-- What a part of a function adds to it. -/
@[ext] structure Cost where
  /-- The bytes of its code. -/
  size : Nat
  /-- The constants that it refers to. -/
  constants : List Value
  /-- The number of functions that it creates, each of which is a constant too. -/
  functions : Nat
  /-- The names under which it finds variables of the functions around. -/
  captured : List String
  /-- The number of its parameters. -/
  parameters : Nat

namespace Cost

instance : Zero Cost := ⟨⟨0, [], 0, [], 0⟩⟩

instance : Add Cost where
  add c d :=
    ⟨c.size + d.size, c.constants ++ d.constants, c.functions + d.functions,
      c.captured ++ d.captured, c.parameters + d.parameters⟩

/-- The cost of code. -/
def bytes (n : Nat) : Cost :=
  ⟨n, [], 0, [], 0⟩

/-- The cost of a constant. -/
def constant (value : Value) : Cost :=
  ⟨0, [value], 0, [], 0⟩

/-- The cost of captured variables. -/
def capturing (names : List String) : Cost :=
  ⟨0, [], 0, names, 0⟩

/-- The cost of parameters. -/
def taking (parameters : List Token) : Cost :=
  ⟨0, [], 0, [], parameters.length⟩

/-- The number of variables that a function captures. -/
def captureCount (c : Cost) : Nat :=
  (distinct (· == ·) c.captured).length

/-- The number of constants of a function. -/
def constantCount (c : Cost) : Nat :=
  (distinct Value.sameConstant c.constants).length + c.functions

/-- The limits of a function. -/
structure Within (c : Cost) : Prop where
  /-- There are at most 256 constants. -/
  constants : c.constantCount ≤ 256
  /-- There are at most 256 captured variables. -/
  captured : c.captureCount ≤ 256
  /-- There are at most 255 parameters. -/
  parameters : c.parameters ≤ 255

end Cost

namespace Site

/-- The cost of finding a variable: a local is known by its slot, one of a function around is
captured, and a global one is found by its name. -/
def lookUp (site : Site) (name : String) : Cost :=
  if name ∈ site.locals then 0
  else if name ∈ site.outer.flatten then .capturing [name]
  else .constant (.string name)

/-- The cost of reading a variable. -/
def read (site : Site) (name : String) : Cost :=
  site.lookUp name + .bytes 2

/-- The cost of declaring a variable: a global one is declared by its name. -/
def nameCost (site : Site) (name : String) : Cost :=
  if site.scopes = [] then .constant (.string name) else 0

/-- The bytes that give a declared variable its value: the slot of a local has it already. -/
def definitionSize (site : Site) : Nat :=
  if site.scopes = [] then 2 else 0

/-- The cost of creating a function: besides itself, what it captures that is no local here. -/
def closure (site : Site) (function : Cost) : Cost where
  size := 2 + 2 * function.captureCount
  constants := []
  functions := 1
  captured := function.captured.filter (· ∉ site.locals)
  parameters := 0

end Site

/-! ## Expressions -/

/-- The value of a number; one with a point is a floating point number.  An integer beyond 64 bits
has none. -/
def Token.number? (token : Token) : Option Value :=
  if token.lexeme.toList.contains '.' then (Decimal.read token.lexeme).map .number
  else (Decimal.readInt token.lexeme).map .int

/-- The cost of a number, a text, `true`, `false` or `nil`. -/
def Token.literalCost (token : Token) : Cost :=
  match token.kind with
  | .number => ⟨2, token.number?.toList, 0, [], 0⟩
  | .string => .constant (.string (Build.unquoted token.lexeme)) + .bytes 2
  | _ => .bytes 1

mutual

/-- The cost of an expression. -/
def Expr.cost (site : Site) : Expr → Cost
  | .literal token => token.literalCost
  | .ident token => site.read token.lexeme
  | .this keyword => site.read keyword.lexeme
  | .inherited _ name =>
    .constant (.string name.lexeme) + site.read "self" + site.read "super" + .bytes 2
  | .inheritedCall _ name arguments =>
    .constant (.string name.lexeme) + site.read "self" + Expr.costList site arguments +
      site.read "super" + .bytes 3
  | .grouping inner => inner.cost site
  | .array _ elements => Expr.costList site elements + .bytes 2
  | .unary _ operand => operand.cost site + .bytes 1
  | .binary left sign right =>
    left.cost site + right.cost site + .bytes (Build.signOps sign.kind).length
  | .conjunction left _ right => left.cost site + .bytes 4 + right.cost site
  | .disjunction left _ right => left.cost site + .bytes 7 + right.cost site
  | .call callee _ arguments => callee.cost site + Expr.costList site arguments + .bytes 2
  | .subscript callee _ index => callee.cost site + index.cost site + .bytes 2
  | .property receiver name => receiver.cost site + .constant (.string name.lexeme) + .bytes 2
  | .methodCall receiver name arguments =>
    receiver.cost site + .constant (.string name.lexeme) + Expr.costList site arguments + .bytes 3
  | .assign name value => site.lookUp name.lexeme + value.cost site + .bytes 2
  | .setProperty receiver name value =>
    receiver.cost site + .constant (.string name.lexeme) + value.cost site + .bytes 2

/-- The cost of expressions in a row. -/
def Expr.costList (site : Site) : List Expr → Cost
  | [] => 0
  | e :: es => e.cost site + Expr.costList site es

end

mutual

/-- The rules for an expression.  `self` and `super` are found as variables are, but no variable of
a source has these names.  `&&` and `||` jump over their second operand and the instruction that
drops the first. -/
def Expr.Legal (site : Site) : Expr → Prop
  | .literal token => token.kind = .number → token.number?.isSome
  | .ident token => site.Usable token.lexeme
  | .this keyword => site.classes ≠ [] ∧ site.Usable keyword.lexeme
  | .inherited _ _ => site.classes.head? = some true ∧ site.Usable "self" ∧ site.Usable "super"
  | .inheritedCall _ _ arguments =>
    site.classes.head? = some true ∧ site.Usable "self" ∧ site.Usable "super" ∧
      Expr.LegalList site arguments ∧ arguments.length ≤ 255
  | .grouping inner => inner.Legal site
  | .array _ elements => Expr.LegalList site elements ∧ elements.length ≤ 255
  | .unary _ operand => operand.Legal site
  | .binary left _ right => left.Legal site ∧ right.Legal site
  | .conjunction left _ right | .disjunction left _ right =>
    left.Legal site ∧ right.Legal site ∧ (right.cost site).size + 1 ≤ 65535
  | .call callee _ arguments =>
    callee.Legal site ∧ Expr.LegalList site arguments ∧ arguments.length ≤ 255
  | .subscript callee _ index => callee.Legal site ∧ index.Legal site
  | .property receiver _ => receiver.Legal site
  | .methodCall receiver _ arguments =>
    receiver.Legal site ∧ Expr.LegalList site arguments ∧ arguments.length ≤ 255
  | .assign name value => site.Usable name.lexeme ∧ value.Legal site
  | .setProperty receiver _ value => receiver.Legal site ∧ value.Legal site

/-- The rules for expressions in a row. -/
def Expr.LegalList (site : Site) : List Expr → Prop
  | [] => True
  | e :: es => e.Legal site ∧ Expr.LegalList site es

end

/-! ## Declarations -/

/-- The variable that a declaration declares.  An alternative, which is a block or a conditional
statement, declares none. -/
def Decl.name? : Decl → Option String
  | .classDecl name _ _ | .func name _ _ | .var name _ => some name.lexeme
  | .ifElse _ _ alternative => alternative.name?
  | _ => none

/-- The place behind a declaration. -/
def Decl.after (site : Site) (d : Decl) : Site :=
  match d.name? with
  | some name => site.declare name
  | none => site

/-- The number of variables that declarations declare. -/
def Decl.declared (ds : List Decl) : Nat :=
  (ds.filterMap Decl.name?).length

mutual

/-- The cost of a declaration or statement.  Every variable of a block takes one byte at its end. -/
def Decl.cost (site : Site) : Decl → Cost
  | .classDecl name none members =>
    let inside := (site.declare name.lexeme).inClass none
    .constant (.string name.lexeme) + .bytes (2 + site.definitionSize) + inside.read name.lexeme +
      Member.costAll inside members + .bytes 1
  | .classDecl name (some parent) members =>
    let inside := (site.declare name.lexeme).inClass (some parent)
    .constant (.string name.lexeme) + .bytes (2 + site.definitionSize) +
      (site.declare name.lexeme).read parent.lexeme + inside.read name.lexeme + .bytes 1 +
      inside.read name.lexeme + Member.costAll inside members + .bytes 2
  | .func name parameters body =>
    let inside := site.declare name.lexeme
    site.nameCost name.lexeme +
      inside.closure (.taking parameters + Decl.costAll (inside.inBody .function parameters) body) +
      .bytes site.definitionSize
  | .var name none => site.nameCost name.lexeme + .bytes (1 + site.definitionSize)
  | .var name (some value) =>
    site.nameCost name.lexeme + value.cost (site.declaring name.lexeme) +
      .bytes site.definitionSize
  | .print _ value => value.cost site + .bytes 1
  | .leave _ none => .bytes 2
  | .leave _ (some value) => value.cost site + .bytes 1
  | .ifThen condition body =>
    condition.cost site + .bytes 4 + Decl.costAll site.enter body +
      .bytes (Decl.declared body) + .bytes 4
  | .ifElse condition body alternative =>
    condition.cost site + .bytes 4 + Decl.costAll site.enter body +
      .bytes (Decl.declared body) + .bytes 4 + alternative.cost site
  | .loop condition body =>
    condition.cost site + .bytes 4 + Decl.costAll site.enter body +
      .bytes (Decl.declared body) + .bytes 4
  | .block body => Decl.costAll site.enter body + .bytes (Decl.declared body)
  | .expression value => value.cost site + .bytes 1

/-- The cost of declarations in a row. -/
def Decl.costAll (site : Site) : List Decl → Cost
  | [] => 0
  | d :: ds => d.cost site + Decl.costAll (d.after site) ds

/-- The cost of a member of a class. -/
def Member.cost (site : Site) : Member → Cost
  | .property name body =>
    .constant (.string name.lexeme) +
      site.closure (.taking [] + Decl.costAll (site.inBody .method []) body) + .bytes 2
  | .method name parameters body =>
    .constant (.string name.lexeme) +
      site.closure (.taking parameters +
        Decl.costAll (site.inBody (Build.methodKind name) parameters) body) + .bytes 2

/-- The cost of members in a row. -/
def Member.costAll (site : Site) : List Member → Cost
  | [] => 0
  | m :: ms => m.cost site + Member.costAll site ms

end

/-- The bytes of a block. -/
def Decl.blockSize (site : Site) (body : List Decl) : Nat :=
  (Decl.costAll site.enter body).size + Decl.declared body

mutual

/-- The rules for a declaration or statement.  A conditional statement jumps over its block, and
behind it over its alternative; a loop jumps back over its condition and its block. -/
def Decl.Legal (site : Site) : Decl → Prop
  | .classDecl name none members =>
    site.Free name.lexeme ∧ Member.LegalAll ((site.declare name.lexeme).inClass none) members
  | .classDecl name (some parent) members =>
    site.Free name.lexeme ∧ parent.lexeme ≠ name.lexeme ∧
      (site.declare name.lexeme).locals.length < 256 ∧
      Member.LegalAll ((site.declare name.lexeme).inClass (some parent)) members
  | .func name parameters body =>
    let inside := site.declare name.lexeme
    site.Free name.lexeme ∧
      (inside.inFunction .function).FreeAll (parameters.map (·.lexeme)) ∧
      Decl.LegalAll (inside.inBody .function parameters) body ∧
      (Cost.taking parameters + Decl.costAll (inside.inBody .function parameters) body).Within
  | .var name none => site.Free name.lexeme
  | .var name (some value) => site.Free name.lexeme ∧ value.Legal (site.declaring name.lexeme)
  | .print _ value => value.Legal site
  | .leave _ none => site.kind = .function ∨ site.kind = .method
  | .leave _ (some value) =>
    (site.kind = .function ∨ site.kind = .method) ∧ value.Legal site
  | .ifThen condition body =>
    condition.Legal site ∧ Decl.LegalAll site.enter body ∧ Decl.blockSize site body + 4 ≤ 65535
  | .ifElse condition body alternative =>
    condition.Legal site ∧ Decl.LegalAll site.enter body ∧ Decl.blockSize site body + 4 ≤ 65535 ∧
      alternative.Legal site ∧ (alternative.cost site).size + 1 ≤ 65535
  | .loop condition body =>
    condition.Legal site ∧ Decl.LegalAll site.enter body ∧
      (condition.cost site).size + Decl.blockSize site body + 7 ≤ 65535
  | .block body => Decl.LegalAll site.enter body
  | .expression value => value.Legal site

/-- The rules for declarations in a row. -/
def Decl.LegalAll (site : Site) : List Decl → Prop
  | [] => True
  | d :: ds => d.Legal site ∧ Decl.LegalAll (d.after site) ds

/-- The rules for a member of a class. -/
def Member.Legal (site : Site) : Member → Prop
  | .property _ body =>
    Decl.LegalAll (site.inBody .method []) body ∧
      (Cost.taking [] + Decl.costAll (site.inBody .method []) body).Within
  | .method name parameters body =>
    (site.inFunction (Build.methodKind name)).FreeAll (parameters.map (·.lexeme)) ∧
      Decl.LegalAll (site.inBody (Build.methodKind name) parameters) body ∧
      (Cost.taking parameters +
        Decl.costAll (site.inBody (Build.methodKind name) parameters) body).Within

/-- The rules for members in a row. -/
def Member.LegalAll (site : Site) : List Member → Prop
  | [] => True
  | m :: ms => m.Legal site ∧ Member.LegalAll site ms

end

/-- The rules for a whole source. -/
def Decl.LegalProgram (ds : List Decl) : Prop :=
  Decl.LegalAll .start ds ∧ (Decl.costAll .start ds).Within

end ScriptVM
