/-
# The meaning of imperative programs

An imperative program declares variables, assigns them, prints, branches and loops; it has no
functions, classes or arrays.  Its meaning is said of its syntax tree, without any machine: an
expression is computed from left to right in the blocks around it, `&&` and `||` compute their right
operand only if they need it, and a block forgets its variables at its end.

* `Eval` is a part of a program in action on a `Store`, the blocks around with their variables, the
  global variables and the output.
* `Expr.eval?` and `Decl.eval?` are what expressions and declarations do, if they are imperative.
  A loop may never end, so each one is given a number of rounds, and a program that needs more has
  no outcome.
* `Expr.height` and `Decl.height` are the numbers of values that have to be kept at a time.
-/
import ScriptVM.Proofs.Syntax.Legality

namespace ScriptVM

/-! ## Stores -/

/-- The variables of a block with their values, newest first. -/
abbrev Scope := List (String × Value)

/-- What a program sees and changes. -/
structure Store where
  /-- The blocks around, innermost first. -/
  scopes : List Scope
  /-- The global variables. -/
  globals : Bindings Value
  /-- Where the program writes. -/
  sink : Sink

namespace Store

/-- The value of the innermost local variable of a name. -/
def local? (s : Store) (name : String) : Option Value :=
  s.scopes.flatten.lookup name

/-- A block once the newest variable of a name has another value. -/
def replace (name : String) (value : Value) : Scope → Scope
  | [] => []
  | entry :: rest =>
    if entry.1 = name then (name, value) :: rest else entry :: replace name value rest

/-- The blocks once the innermost variable of a name has another value, if there is one. -/
def replaceIn? (name : String) (value : Value) : List Scope → Option (List Scope)
  | [] => none
  | scope :: rest =>
    if name ∈ scope.map (·.1) then some (replace name value scope :: rest)
    else (replaceIn? name value rest).map (scope :: ·)

/-- The names of the variables of each block. -/
def names (s : Store) : List (List String) :=
  s.scopes.map (·.map (·.1))

/-- The values of the variables of all blocks. -/
def slots (s : Store) : List Value :=
  s.scopes.flatten.map (·.2)

end Store

/-! ## Parts of programs in action -/

/-- A part of a program in action: what it gives, or why it fails, and the store behind it.  There
is nothing if it does not come to its end in time. -/
def Eval (α : Type) := Store → Option (Except RuntimeError α × Store)

namespace Eval

variable {α β : Type}

/-- One part after another. -/
def andThen (x : Eval α) (f : α → Eval β) : Eval β := fun s =>
  match x s with
  | some (.ok a, s) => f a s
  | some (.error e, s) => some (.error e, s)
  | none => none

instance : Monad Eval where
  pure a := fun s => some (.ok a, s)
  bind := andThen

section

variable {x : Eval α} {f : α → Eval β} {s s' : Store} {a : α} {e : RuntimeError}

theorem bind_of_ok (h : x s = some (.ok a, s')) : (x >>= f) s = f a s' := by
  show andThen x f s = f a s'
  rw [andThen, h]

theorem bind_of_error (h : x s = some (.error e, s')) : (x >>= f) s = some (.error e, s') := by
  show andThen x f s = _
  rw [andThen, h]

theorem bind_of_none (h : x s = none) : (x >>= f) s = none := by
  show andThen x f s = _
  rw [andThen, h]

end

instance : LawfulMonad Eval := by
  refine .mk' Eval (fun x => funext fun s => ?_) (fun _ _ => rfl) fun x f g => funext fun s => ?_
  · show andThen x _ s = x s
    unfold andThen
    rcases x s with _ | ⟨_ | _, _⟩ <;> rfl
  · show andThen (andThen x f) g s = andThen x (fun a => andThen (f a) g) s
    unfold andThen
    rcases x s with _ | ⟨_ | _, _⟩ <;> rfl

/-- Fails. -/
def raise (e : RuntimeError) : Eval α :=
  fun s => some (.error e, s)

/-- Does not come to its end. -/
def unfinished : Eval α :=
  fun _ => none

/-- The outcome of an operator. -/
def ofOperator : Except ValueError Value → Eval Value
  | .ok v => pure v
  | .error e => raise (.value e)

/-- Reads a variable: the innermost local one of the name, or else the global one. -/
def read (name : String) : Eval Value := fun s =>
  match s.local? name with
  | some v => some (.ok v, s)
  | none =>
    match s.globals.get? name with
    | some v => some (.ok v, s)
    | none => raise (.undefinedVariable name) s

/-- Assigns a variable, which has to be there. -/
def assign (name : String) (v : Value) : Eval Unit := fun s =>
  match Store.replaceIn? name v s.scopes with
  | some scopes => some (.ok (), { s with scopes })
  | none =>
    if s.globals.contains name then some (.ok (), { s with globals := s.globals.insert name v })
    else raise (.undefinedVariable name) s

/-- Declares a variable: a global one outside of all blocks, or else one of the innermost block. -/
def declare (name : String) (v : Value) : Eval Unit := fun s =>
  match s.scopes with
  | [] => some (.ok (), { s with globals := s.globals.insert name v })
  | scope :: rest => some (.ok (), { s with scopes := ((name, v) :: scope) :: rest })

/-- Writes a line. -/
def writeLine (text : String) : Eval Unit := fun s =>
  some (.ok (), { s with sink := s.sink.write (text ++ "\n") })

/-- Acts in a block of its own. -/
def inBlock (x : Eval Unit) : Eval Unit := fun s =>
  (x { s with scopes := [] :: s.scopes }).map fun (outcome, s) =>
    (outcome, { s with scopes := s.scopes.tail })

/-- Acts again and again as long as a condition does not count as false, for a number of rounds. -/
def cycle (condition : Eval Value) (body : Nat → Eval Unit) : Nat → Eval Unit
  | 0 => unfinished
  | rounds + 1 => do
    if (← condition).isFalsey then pure ()
    else
      body rounds
      cycle condition body rounds

end Eval

/-! ## Expressions -/

/-- The value that a literal stands for. -/
def Token.literal? (token : Token) : Option Value :=
  match token.kind with
  | .number => token.number?
  | .string => some (.string (Build.unquoted token.lexeme))
  | .trueKw => some (.bool true)
  | .falseKw => some (.bool false)
  | .nilKw => some .nil
  | _ => none

/-- What an operator in front of an operand gives. -/
def TokenKind.unary? : TokenKind → Option (Value → Except ValueError Value)
  | .minus => some Value.negate
  | .bang => some fun v => .ok v.not
  | _ => none

/-- What an operator between two operands gives.  `<=` and `>=` deny `>` and `<`. -/
def TokenKind.binary? : TokenKind → Option (Value → Value → Except ValueError Value)
  | .plus => some Value.add
  | .minus => some Value.subtract
  | .asterisk => some Value.multiply
  | .slash => some Value.divide
  | .equalEqual => some fun a b => .ok (.bool (a.equals b))
  | .bangEqual => some fun a b => .ok (.bool (!a.equals b))
  | .less => some Value.less
  | .greater => some Value.greater
  | .lessEqual => some fun a b => (a.greater b).map Value.not
  | .greaterEqual => some fun a b => (a.less b).map Value.not
  | _ => none

namespace Expr

/-- What an expression gives, if it is imperative. -/
def eval? : Expr → Option (Eval Value)
  | .literal token => token.literal?.map pure
  | .ident token => some (Eval.read token.lexeme)
  | .grouping inner => inner.eval?
  | .unary sign operand => do
    let op ← sign.kind.unary?
    let x ← operand.eval?
    some do Eval.ofOperator (op (← x))
  | .binary left sign right => do
    let op ← sign.kind.binary?
    let x ← left.eval?
    let y ← right.eval?
    some do
      let a ← x
      let b ← y
      Eval.ofOperator (op a b)
  | .conjunction left _ right => do
    let x ← left.eval?
    let y ← right.eval?
    some do
      let a ← x
      if a.isFalsey then pure a else y
  | .disjunction left _ right => do
    let x ← left.eval?
    let y ← right.eval?
    some do
      let a ← x
      if a.isFalsey then y else pure a
  | .assign name value => do
    let x ← value.eval?
    some do
      let v ← x
      Eval.assign name.lexeme v
      return v
  | _ => none

/-- The number of values that an expression keeps at a time, its own included. -/
def height : Expr → Nat
  | .literal _ | .ident _ => 1
  | .grouping e | .unary _ e | .assign _ e => e.height
  | .binary left _ right => max left.height (right.height + 1)
  | .conjunction left _ right | .disjunction left _ right => max left.height right.height
  | _ => 0

end Expr

/-! ## Declarations -/

mutual

/-- What a declaration or statement does with a number of rounds for each loop, if it is imperative.
Values are printed by `display`. -/
def Decl.eval? (display : Value → String) : Decl → Option (Nat → Eval Unit)
  | .var name none => some fun _ => Eval.declare name.lexeme .nil
  | .var name (some value) => do
    let x ← value.eval?
    some fun _ => do Eval.declare name.lexeme (← x)
  | .print _ value => do
    let x ← value.eval?
    some fun _ => do Eval.writeLine (display (← x))
  | .expression value => do
    let x ← value.eval?
    some fun _ => do
      let _ ← x
  | .block body => do
    let act ← Decl.evalAll? display body
    some fun rounds => Eval.inBlock (act rounds)
  | .ifThen condition body => do
    let x ← condition.eval?
    let act ← Decl.evalAll? display body
    some fun rounds => do
      if (← x).isFalsey then pure () else Eval.inBlock (act rounds)
  | .ifElse condition body alternative => do
    let x ← condition.eval?
    let act ← Decl.evalAll? display body
    let other ← alternative.eval? display
    some fun rounds => do
      if (← x).isFalsey then other rounds else Eval.inBlock (act rounds)
  | .loop condition body => do
    let x ← condition.eval?
    let act ← Decl.evalAll? display body
    some (Eval.cycle x fun rounds => Eval.inBlock (act rounds))
  | _ => none

/-- What declarations do in a row. -/
def Decl.evalAll? (display : Value → String) : List Decl → Option (Nat → Eval Unit)
  | [] => some fun _ => pure ()
  | d :: ds => do
    let act ← d.eval? display
    let rest ← Decl.evalAll? display ds
    some fun rounds => do
      act rounds
      rest rounds

end

mutual

/-- The number of values that a declaration keeps at a time above the variables around. -/
def Decl.height : Decl → Nat
  | .var _ none => 1
  | .var _ (some value) | .print _ value | .expression value => value.height
  | .block body => Decl.heightAll 1 body
  | .ifThen condition body | .loop condition body => max condition.height (Decl.heightAll 1 body)
  | .ifElse condition body alternative =>
    max (max condition.height (Decl.heightAll 1 body)) alternative.height
  | _ => 0

/-- The number of values that declarations in a row keep at a time, if each variable takes `room`:
local ones take one slot, and global ones none. -/
def Decl.heightAll (room : Nat) : List Decl → Nat
  | [] => 0
  | d :: ds => max d.height ((if d.name?.isSome then room else 0) + Decl.heightAll room ds)

end

end ScriptVM
