/-
# The grammar

The syntax trees of the language and the rules by which a list of tokens spells one.  There is one
rule for each alternative of the grammar, and nothing in them refers to how a source is read:

* `Precedence` are the levels of expressions, from assignments down to calls; `tighter` is the next
  level, and every expression of a level is one of the levels above it.
* The operators of equality, comparison, term and factor group to the left, `&&` and `||` to the
  right.
* A property followed by an argument list is one node, `methodCall`, and so is a property of the
  superclass; a plain `call` is of something else.  So no list of tokens is spelled by both.

Main statement: what an expression or a declaration can start with (`Derives.first`).
-/
import ScriptVM.Session

namespace ScriptVM

/-! ## Trees -/

/-- The expressions.  A node keeps the tokens that its code refers to. -/
inductive Expr where
  /-- A number, a text, `true`, `false` or `nil`. -/
  | literal (token : Token)
  /-- A variable. -/
  | ident (token : Token)
  /-- `self` -/
  | this (keyword : Token)
  /-- A property of the superclass. -/
  | inherited (keyword name : Token)
  /-- A call of a method of the superclass. -/
  | inheritedCall (keyword name : Token) (arguments : List Expr)
  /-- An expression in parentheses. -/
  | grouping (inner : Expr)
  /-- An array. -/
  | array (bracket : Token) (elements : List Expr)
  /-- An operand with an operator in front. -/
  | unary (sign : Token) (operand : Expr)
  /-- Two operands that are both evaluated. -/
  | binary (left : Expr) (sign : Token) (right : Expr)
  /-- `&&` -/
  | conjunction (left : Expr) (sign : Token) (right : Expr)
  /-- `||` -/
  | disjunction (left : Expr) (sign : Token) (right : Expr)
  /-- A call of a value. -/
  | call (callee : Expr) (paren : Token) (arguments : List Expr)
  /-- A subscript. -/
  | subscript (callee : Expr) (bracket : Token) (index : Expr)
  /-- A property that is read. -/
  | property (receiver : Expr) (name : Token)
  /-- A property that is called. -/
  | methodCall (receiver : Expr) (name : Token) (arguments : List Expr)
  /-- An assignment to a variable. -/
  | assign (name : Token) (value : Expr)
  /-- An assignment to a property. -/
  | setProperty (receiver : Expr) (name : Token) (value : Expr)
deriving Inhabited

mutual

/-- The declarations and statements. -/
inductive Decl where
  /-- A class. -/
  | classDecl (name : Token) (parent : Option Token) (members : List Member)
  /-- A function. -/
  | func (name : Token) (parameters : List Token) (body : List Decl)
  /-- A variable. -/
  | var (name : Token) (initial : Option Expr)
  /-- A print statement. -/
  | print (keyword : Token) (value : Expr)
  /-- A return statement. -/
  | leave (keyword : Token) (value : Option Expr)
  /-- A conditional statement without an alternative. -/
  | ifThen (condition : Expr) (body : List Decl)
  /-- A conditional statement with an alternative, which is a block or another conditional. -/
  | ifElse (condition : Expr) (body : List Decl) (alternative : Decl)
  /-- A loop. -/
  | loop (condition : Expr) (body : List Decl)
  /-- A block. -/
  | block (body : List Decl)
  /-- An expression whose value is dropped. -/
  | expression (value : Expr)

/-- The members of a class. -/
inductive Member where
  /-- A computed property. -/
  | property (name : Token) (body : List Decl)
  /-- A method. -/
  | method (name : Token) (parameters : List Token) (body : List Decl)

end

namespace Expr

/-- Whether an expression reads a property, so that an argument list behind it belongs to it. -/
def isProperty : Expr → Bool
  | .property _ _ | .inherited _ _ => true
  | _ => false

end Expr

/-! ## Levels -/

namespace Precedence

/-- The next level, whose operators bind tighter. -/
def tighter : Precedence → Precedence
  | .assignment => .or
  | .or => .and
  | .and => .equality
  | .equality => .comparison
  | .comparison => .term
  | .term => .factor
  | .factor => .unary
  | .unary | .call => .call

/-- The operators of a level that group to the left. -/
def signs : Precedence → List TokenKind
  | .equality => [.equalEqual, .bangEqual]
  | .comparison => [.less, .greater, .lessEqual, .greaterEqual]
  | .term => [.plus, .minus]
  | .factor => [.asterisk, .slash]
  | _ => []

end Precedence

namespace TokenKind

/-- The kinds of tokens that are an expression by themselves. -/
def literals : List TokenKind :=
  [.number, .string, .trueKw, .falseKw, .nilKw]

/-- The kinds of tokens with which an expression can start. -/
def startsExpression (kind : TokenKind) : Bool :=
  kind ∈ literals ++
    [.identifier, .selfKw, .superKw, .leftParen, .leftBracket, .minus, .bang]

/-- The kinds of tokens with which a declaration or statement can start. -/
def startsDeclaration (kind : TokenKind) : Bool :=
  kind.startsExpression ||
    kind ∈ [.classKw, .funcKw, .varKw, .printKw, .ifKw, .whileKw, .returnKw, .leftBrace]

end TokenKind

/-! ## Rules -/

/-- What a list of tokens can be, with the tree that it is then. -/
inductive Nonterminal where
  /-- An expression of a level. -/
  | expression (level : Precedence) (e : Expr)
  /-- At least one expression, divided by commas. -/
  | list (es : List Expr)
  /-- Any number of expressions, divided by commas. -/
  | optionalList (es : List Expr)
  /-- A declaration or statement. -/
  | declaration (d : Decl)
  /-- Any number of declarations. -/
  | declarations (ds : List Decl)
  /-- Declarations in braces. -/
  | block (ds : List Decl)
  /-- A conditional statement, from its condition on. -/
  | conditional (d : Decl)
  /-- What can stand behind `else`. -/
  | alternative (d : Decl)
  /-- At least one name, divided by commas. -/
  | names (ns : List Token)
  /-- Any number of names, divided by commas. -/
  | parameters (ns : List Token)
  /-- A member of a class. -/
  | member (m : Member)
  /-- Any number of members. -/
  | members (ms : List Member)

/-- The rules of the grammar. -/
inductive Derives : Nonterminal → List Token → Prop where
  -- Expressions, level by level.
  | tighter {p e ts} : Derives (.expression p.tighter e) ts → Derives (.expression p e) ts
  | assign {name sign v ts} : name.kind = .identifier → sign.kind = .equal →
      Derives (.expression .assignment v) ts →
      Derives (.expression .assignment (.assign name v)) (name :: sign :: ts)
  | setProperty {r dot name sign v ts us} : Derives (.expression .call r) ts →
      dot.kind = .dot → name.kind = .identifier → sign.kind = .equal →
      Derives (.expression .assignment v) us →
      Derives (.expression .assignment (.setProperty r name v)) (ts ++ dot :: name :: sign :: us)
  | disjunction {l sign r ts us} : Derives (.expression .and l) ts → sign.kind = .orOr →
      Derives (.expression .or r) us →
      Derives (.expression .or (.disjunction l sign r)) (ts ++ sign :: us)
  | conjunction {l sign r ts us} : Derives (.expression .equality l) ts → sign.kind = .andAnd →
      Derives (.expression .and r) us →
      Derives (.expression .and (.conjunction l sign r)) (ts ++ sign :: us)
  | binary {p l sign r ts us} : Derives (.expression p l) ts → sign.kind ∈ p.signs →
      Derives (.expression p.tighter r) us →
      Derives (.expression p (.binary l sign r)) (ts ++ sign :: us)
  | unary {sign e ts} : sign.kind ∈ [.bang, .minus] → Derives (.expression .unary e) ts →
      Derives (.expression .unary (.unary sign e)) (sign :: ts)
  -- Calls, subscripts and properties.
  | call {e opening es closing ts us} : Derives (.expression .call e) ts → e.isProperty = false →
      opening.kind = .leftParen → Derives (.optionalList es) us → closing.kind = .rightParen →
      Derives (.expression .call (.call e opening es)) (ts ++ opening :: us ++ [closing])
  | subscript {e opening i closing ts us} : Derives (.expression .call e) ts →
      opening.kind = .leftBracket → Derives (.expression .assignment i) us →
      closing.kind = .rightBracket →
      Derives (.expression .call (.subscript e opening i)) (ts ++ opening :: us ++ [closing])
  | property {e dot name ts} : Derives (.expression .call e) ts → dot.kind = .dot →
      name.kind = .identifier → Derives (.expression .call (.property e name)) (ts ++ [dot, name])
  | methodCall {e dot name opening es closing ts us} : Derives (.expression .call e) ts →
      dot.kind = .dot → name.kind = .identifier → opening.kind = .leftParen →
      Derives (.optionalList es) us → closing.kind = .rightParen →
      Derives (.expression .call (.methodCall e name es))
        (ts ++ dot :: name :: opening :: us ++ [closing])
  -- Operands.
  | literal {token} : token.kind ∈ TokenKind.literals →
      Derives (.expression .call (.literal token)) [token]
  | ident {token} : token.kind = .identifier → Derives (.expression .call (.ident token)) [token]
  | this {keyword} : keyword.kind = .selfKw →
      Derives (.expression .call (.this keyword)) [keyword]
  | inherited {keyword dot name} : keyword.kind = .superKw → dot.kind = .dot →
      name.kind = .identifier →
      Derives (.expression .call (.inherited keyword name)) [keyword, dot, name]
  | inheritedCall {keyword dot name opening es closing us} : keyword.kind = .superKw →
      dot.kind = .dot → name.kind = .identifier → opening.kind = .leftParen →
      Derives (.optionalList es) us → closing.kind = .rightParen →
      Derives (.expression .call (.inheritedCall keyword name es))
        (keyword :: dot :: name :: opening :: us ++ [closing])
  | grouping {opening e closing ts} : opening.kind = .leftParen →
      Derives (.expression .assignment e) ts → closing.kind = .rightParen →
      Derives (.expression .call (.grouping e)) (opening :: ts ++ [closing])
  | array {opening es closing ts} : opening.kind = .leftBracket → Derives (.optionalList es) ts →
      closing.kind = .rightBracket →
      Derives (.expression .call (.array opening es)) (opening :: ts ++ [closing])
  -- Lists of expressions.
  | last {e ts} : Derives (.expression .assignment e) ts → Derives (.list [e]) ts
  | more {e comma es ts us} : Derives (.expression .assignment e) ts → comma.kind = .comma →
      Derives (.list es) us → Derives (.list (e :: es)) (ts ++ comma :: us)
  | noList : Derives (.optionalList []) []
  | someList {es ts} : Derives (.list es) ts → Derives (.optionalList es) ts
  -- Blocks.
  | noDeclarations : Derives (.declarations []) []
  | declarations {d ds ts us} : Derives (.declaration d) ts → Derives (.declarations ds) us →
      Derives (.declarations (d :: ds)) (ts ++ us)
  | block {opening ds closing ts} : opening.kind = .leftBrace → Derives (.declarations ds) ts →
      closing.kind = .rightBrace → Derives (.block ds) (opening :: ts ++ [closing])
  -- Statements.
  | print {keyword e semicolon ts} : keyword.kind = .printKw →
      Derives (.expression .assignment e) ts → semicolon.kind = .semicolon →
      Derives (.declaration (.print keyword e)) (keyword :: ts ++ [semicolon])
  | leave {keyword semicolon} : keyword.kind = .returnKw → semicolon.kind = .semicolon →
      Derives (.declaration (.leave keyword none)) [keyword, semicolon]
  | leaveWith {keyword e semicolon ts} : keyword.kind = .returnKw →
      Derives (.expression .assignment e) ts → semicolon.kind = .semicolon →
      Derives (.declaration (.leave keyword (some e))) (keyword :: ts ++ [semicolon])
  | conditional {keyword d ts} : keyword.kind = .ifKw → Derives (.conditional d) ts →
      Derives (.declaration d) (keyword :: ts)
  | ifThen {e ds ts us} : Derives (.expression .assignment e) ts → Derives (.block ds) us →
      Derives (.conditional (.ifThen e ds)) (ts ++ us)
  | ifElse {e ds keyword d ts us vs} : Derives (.expression .assignment e) ts →
      Derives (.block ds) us → keyword.kind = .elseKw → Derives (.alternative d) vs →
      Derives (.conditional (.ifElse e ds d)) (ts ++ us ++ keyword :: vs)
  | elseIf {keyword d ts} : keyword.kind = .ifKw → Derives (.conditional d) ts →
      Derives (.alternative d) (keyword :: ts)
  | elseBlock {ds ts} : Derives (.block ds) ts → Derives (.alternative (.block ds)) ts
  | loop {keyword e ds ts us} : keyword.kind = .whileKw → Derives (.expression .assignment e) ts →
      Derives (.block ds) us → Derives (.declaration (.loop e ds)) (keyword :: ts ++ us)
  | blockStatement {ds ts} : Derives (.block ds) ts → Derives (.declaration (.block ds)) ts
  | expression {e semicolon ts} : Derives (.expression .assignment e) ts →
      semicolon.kind = .semicolon → Derives (.declaration (.expression e)) (ts ++ [semicolon])
  -- Variables and functions.
  | var {keyword name semicolon} : keyword.kind = .varKw → name.kind = .identifier →
      semicolon.kind = .semicolon →
      Derives (.declaration (.var name none)) [keyword, name, semicolon]
  | varWith {keyword name sign e semicolon ts} : keyword.kind = .varKw → name.kind = .identifier →
      sign.kind = .equal → Derives (.expression .assignment e) ts → semicolon.kind = .semicolon →
      Derives (.declaration (.var name (some e))) (keyword :: name :: sign :: ts ++ [semicolon])
  | lastName {name} : name.kind = .identifier → Derives (.names [name]) [name]
  | moreNames {name comma ns ts} : name.kind = .identifier → comma.kind = .comma →
      Derives (.names ns) ts → Derives (.names (name :: ns)) (name :: comma :: ts)
  | noParameters {opening closing} : opening.kind = .leftParen → closing.kind = .rightParen →
      Derives (.parameters []) [opening, closing]
  | parameters {opening ns closing ts} : opening.kind = .leftParen → Derives (.names ns) ts →
      closing.kind = .rightParen → Derives (.parameters ns) (opening :: ts ++ [closing])
  | func {keyword name ns ds ts us} : keyword.kind = .funcKw → name.kind = .identifier →
      Derives (.parameters ns) ts → Derives (.block ds) us →
      Derives (.declaration (.func name ns ds)) (keyword :: name :: ts ++ us)
  -- Classes.
  | computed {keyword name ds ts} : keyword.kind = .varKw → name.kind = .identifier →
      Derives (.block ds) ts → Derives (.member (.property name ds)) (keyword :: name :: ts)
  | method {name ns ds ts us} : name.kind = .identifier → Derives (.parameters ns) ts →
      Derives (.block ds) us → Derives (.member (.method name ns ds)) (name :: ts ++ us)
  | noMembers : Derives (.members []) []
  | members {m ms ts us} : Derives (.member m) ts → Derives (.members ms) us →
      Derives (.members (m :: ms)) (ts ++ us)
  | classDecl {keyword name opening ms closing ts} : keyword.kind = .classKw →
      name.kind = .identifier → opening.kind = .leftBrace → Derives (.members ms) ts →
      closing.kind = .rightBrace →
      Derives (.declaration (.classDecl name none ms))
        (keyword :: name :: opening :: ts ++ [closing])
  | derivedClass {keyword name colon parent opening ms closing ts} : keyword.kind = .classKw →
      name.kind = .identifier → colon.kind = .colon → parent.kind = .identifier →
      opening.kind = .leftBrace → Derives (.members ms) ts → closing.kind = .rightBrace →
      Derives (.declaration (.classDecl name (some parent) ms))
        (keyword :: name :: colon :: parent :: opening :: ts ++ [closing])

/-! ## What comes first -/

/-- What the first token of a phrase can be. -/
def Nonterminal.First : Nonterminal → List Token → Prop
  | .expression _ _, ts | .list _, ts => ∃ t us, ts = t :: us ∧ t.kind.startsExpression
  | .declaration _, ts => ∃ t us, ts = t :: us ∧ t.kind.startsDeclaration
  | .declarations _, ts => ts = [] ∨ ∃ t us, ts = t :: us ∧ t.kind.startsDeclaration
  | .block _, ts => ∃ t us, ts = t :: us ∧ t.kind = .leftBrace
  | .names _, ts => ∃ t us, ts = t :: us ∧ t.kind = .identifier
  | .member _, ts => ∃ t us, ts = t :: us ∧ (t.kind = .varKw ∨ t.kind = .identifier)
  | _, _ => True

/-- **The first token of a phrase tells what kind of phrase it can be.** -/
theorem Derives.first {n : Nonterminal} {ts : List Token} (h : Derives n ts) : n.First ts := by
  induction h with
  | tighter _ ih => exact ih
  | setProperty _ _ _ _ _ ih | disjunction _ _ _ ih | conjunction _ _ _ ih | binary _ _ _ ih
  | call _ _ _ _ _ ih | subscript _ _ _ _ ih | property _ _ _ ih | methodCall _ _ _ _ _ _ ih
  | more _ _ _ ih =>
    -- These start with an expression of their own.
    obtain ⟨t, us, rfl, ht⟩ := ih
    exact ⟨t, _, rfl, ht⟩
  | unary hsign _ _ =>
    refine ⟨_, _, rfl, ?_⟩
    rcases List.mem_cons.1 hsign with h | h
    · rw [h]; rfl
    · rw [List.mem_singleton.1 h]; rfl
  | literal hkind =>
    exact ⟨_, _, rfl, by simpa [TokenKind.startsExpression] using .inl hkind⟩
  | assign hkind _ _ _ | ident hkind | this hkind | inherited hkind _ _
  | inheritedCall hkind _ _ _ _ _ _ | grouping hkind _ _ _ | array hkind _ _ _ =>
    exact ⟨_, _, rfl, by rw [hkind]; rfl⟩
  | last _ ih => exact ih
  | expression _ _ ih =>
    obtain ⟨t, us, rfl, ht⟩ := ih
    exact ⟨t, _, rfl, by rw [TokenKind.startsDeclaration, ht, Bool.true_or]⟩
  | print hkind _ _ _ | leave hkind _ | leaveWith hkind _ _ _ | conditional hkind _ _
  | loop hkind _ _ _ _ | var hkind _ _ | varWith hkind _ _ _ _ _ | func hkind _ _ _ _ _
  | classDecl hkind _ _ _ _ _ | derivedClass hkind _ _ _ _ _ _ _ =>
    exact ⟨_, _, rfl, by rw [hkind]; rfl⟩
  | blockStatement _ ih =>
    obtain ⟨t, us, rfl, ht⟩ := ih
    exact ⟨t, us, rfl, by rw [ht]; rfl⟩
  | block hkind _ _ _ | lastName hkind | moreNames hkind _ _ _ => exact ⟨_, _, rfl, hkind⟩
  | computed hkind _ _ _ => exact ⟨_, _, rfl, .inl hkind⟩
  | method hkind _ _ _ _ => exact ⟨_, _, rfl, .inr hkind⟩
  | noDeclarations => exact .inl rfl
  | declarations _ _ ih _ =>
    obtain ⟨t, us, rfl, ht⟩ := ih
    exact .inr ⟨t, _, rfl, ht⟩
  | noList | someList _ _ | ifThen _ _ _ _
  | ifElse _ _ _ _ _ _ _ | elseIf _ _ _ | elseBlock _ _ | noParameters _ _ | parameters _ _ _ _
  | noMembers | members _ _ _ _ => trivial

end ScriptVM
