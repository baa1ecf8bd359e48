/-
# The code of expressions

The code of an expression leaves one operand on the stack and needs nothing but the locals that are
visible (`expression_emits`).  What an expression contains is built by `inner`, of which the same is
assumed.

The superclass can be named only where the instance is visible and the superclass can be captured
(`Scoped`), so that reading them never falls through to a global variable, and what is searched for
a member of the superclass is always a captured variable (`readSuper_emits`).
-/
import ScriptVM.Proofs.Program.Growth

namespace ScriptVM

/-! ## Where the superclass can be named -/

/-- A visible variable stays visible where locals keep their names. -/
theorem Visible.mono {name : String} {c c' : FunctionContext}
    {around around' : List FunctionContext}
    (h : Visible name (c :: around)) (hc : ∀ l ∈ c.locals, ∃ l' ∈ c'.locals, l'.name = l.name)
    (haround : ContextsRaised around around') : Visible name (c' :: around') := by
  obtain ⟨d, hd, l, hl, hname⟩ := h
  rcases List.mem_cons.1 hd with rfl | hd
  · obtain ⟨l', hl', hname'⟩ := hc l hl
    exact ⟨c', List.mem_cons_self, l', hl', hname'.trans hname⟩
  · obtain ⟨d', hd', hraise⟩ := exists_mem_of_forall₂ haround hd
    obtain ⟨l', hl', hraise'⟩ := exists_mem_of_forall₂ hraise.locals hl
    exact ⟨d', List.mem_cons_of_mem _ hd', l', hl', hraise'.name.trans hname⟩

/-- A superclass that can be captured is visible. -/
theorem Derived.visible {contexts : List FunctionContext} (h : Derived contexts) :
    Visible "super" contexts := by
  induction h with
  | member _ _ houter hname _ =>
    exact ⟨_, List.mem_cons_of_mem _ List.mem_cons_self, _, houter ▸ List.mem_cons_self, hname⟩
  | nested _ _ _ ih =>
    obtain ⟨c, hc, hvisible⟩ := ih
    exact ⟨c, List.mem_cons_of_mem _ hc, hvisible⟩

/-- Inside a class with a superclass, the instance is visible and the superclass can be captured. -/
def Scoped (b : Builder) : Prop :=
  b.classes.head?.any (·.hasSuperclass) = true →
    Visible "self" (b.context :: b.enclosing) ∧ Derived (b.context :: b.enclosing)

/-- Whether a builder is scoped depends on its classes, its kind and its variables only. -/
theorem Scoped.congr {b b' : Builder} (h : Scoped b) (hclasses : b'.classes = b.classes)
    (hkind : b'.context.function.kind = b.context.function.kind)
    (hlocals : b'.context.locals = b.context.locals) (henclosing : b'.enclosing = b.enclosing) :
    Scoped b' := by
  intro hsuper
  rw [hclasses] at hsuper
  obtain ⟨hself, hderived⟩ := h hsuper
  rw [henclosing]
  refine ⟨hself.mono (fun l hl => ⟨l, hlocals ▸ hl, rfl⟩) (ContextsRaised.refl _), ?_⟩
  exact hderived.with hkind (hlocals ▸ hderived.ne_super) (ContextsRaised.refl _)

/-- A step that drops no names and adds no local that is named like the superclass. -/
theorem Grown.scoped {bps bps' : List Blueprint} {b b' : Builder} {code : Code}
    (h : Grown bps b bps' b' code)
    (hlocals : ∀ l ∈ b.context.locals, ∃ l' ∈ b'.context.locals, l'.name = l.name)
    (hother : ∀ l' ∈ b'.context.locals, l'.name = "super" → ∃ l ∈ b.context.locals,
      l.name = "super")
    (hb : Scoped b) : Scoped b' := by
  intro hsuper
  rw [h.classes] at hsuper
  obtain ⟨hself, hderived⟩ := hb hsuper
  refine ⟨hself.mono hlocals h.enclosing, hderived.with h.kind ?_ h.enclosing⟩
  intro l' hl' hname
  obtain ⟨l, hl, hname'⟩ := hother l' hl' hname
  exact hderived.ne_super l hl hname'

/-- Code that is appended with the locals kept leaves a builder scoped. -/
theorem Grown.scoped_of_raised {bps bps' : List Blueprint} {b b' : Builder} {code : Code}
    (h : Grown bps b bps' b' code) (hlocals : LocalsRaised b.context.locals b'.context.locals)
    (hb : Scoped b) : Scoped b' := by
  refine h.scoped (fun l hl => ?_) (fun l' hl' hname => ?_) hb
  · obtain ⟨l', hl', hraise⟩ := exists_mem_of_forall₂ hlocals hl
    exact ⟨l', hl', hraise.name⟩
  · obtain ⟨l, hl, hraise⟩ := hlocals.exists_of_mem hl'
    exact ⟨l, hl, hraise.name ▸ hname⟩

theorem Grown.scoped_of_locals {bps bps' : List Blueprint} {b b' : Builder} {code : Code}
    (h : Grown bps b bps' b' code) (hlocals : b'.context.locals = b.context.locals)
    (hb : Scoped b) : Scoped b' :=
  h.scoped_of_raised (hlocals ▸ LocalsRaised.refl _) hb

theorem Emission.scoped {exact : Bool} {bps bps' : List Blueprint} {b b' : Builder} {p q : Point}
    {code : Code} (h : Emission exact bps b bps' b' p code q) (hb : Scoped b) : Scoped b' :=
  h.grown.scoped_of_raised h.locals hb

/-! ## Steps that emit code -/

/-- What is appended between two builders leads from one point to another. -/
def Emits (exact : Bool) (bps : List Blueprint) (b b' : Builder) (p q : Point) : Prop :=
  ∃ bps' code, Emission exact bps b bps' b' p code q

/-- Code is appended behind code that has been appended. -/
theorem Emission.andThen {exact : Bool} {bps bps₁ : List Blueprint} {b b₁ b₂ : Builder}
    {p q r : Point} {code : Code} (h₁ : Emission exact bps b bps₁ b₁ p code q)
    (h₂ : Emits exact bps₁ b₁ b₂ q r) : Emits exact bps b b₂ p r := by
  obtain ⟨bps₂, c₂, he₂⟩ := h₂
  exact ⟨bps₂, code ++ c₂, h₁.append he₂⟩

namespace Emits

variable {exact : Bool} {bps : List Blueprint} {b b₁ b₂ : Builder} {p q r : Point}

/-- One step after another. -/
theorem append (h₁ : Emits exact bps b b₁ p q) (hb : Scoped b)
    (h₂ : ∀ bps₁, Sound bps₁ b₁ → Scoped b₁ → Emits exact bps₁ b₁ b₂ q r) :
      Emits exact bps b b₂ p r := by
  obtain ⟨bps₁, c₁, he₁⟩ := h₁
  exact he₁.andThen (h₂ bps₁ he₁.grown.sound (he₁.scoped hb))

theorem rebase {X Y : Shape} {st st' : Stage} (h : Emits false bps b b₁ ⟨X, st⟩ ⟨Y, st'⟩)
    (Z : Shape) : Emits exact bps b b₁ ⟨X ++ Z, st⟩ ⟨Y ++ Z, st'⟩ := by
  obtain ⟨bps₁, code, he⟩ := h
  exact ⟨bps₁, code, he.rebase Z⟩

theorem thenTake (h : Emits exact bps b b₁ p q) : Emits exact bps b b₁.take p q := by
  obtain ⟨bps₁, code, he⟩ := h
  exact ⟨bps₁, code, he.thenTake⟩

theorem take (h : Sound bps b) : Emits exact bps b b.take p p :=
  ⟨bps, [], .take h p⟩

theorem emit {op : Opcode} {line : Nat} (h : Sound bps b)
    (hruns : ∀ S, Covers b.context.locals S → Runs (b.env bps) S op [] p q) :
    Emits exact bps b (b.emit op line) p q :=
  ⟨bps, _, .emit h line hruns⟩

theorem emitWith {op : Opcode} {operand : UInt8} {line : Nat} (h : Sound bps b)
    (hruns : ∀ S, Covers b.context.locals S → Runs (b.env bps) S op [operand] p q) :
    Emits exact bps b (b.emitWith op operand line) p q :=
  ⟨bps, _, .emitWith h line hruns⟩

theorem emitWith₂ {op : Opcode} {x y : UInt8} {line : Nat} (h : Sound bps b)
    (hruns : ∀ S, Covers b.context.locals S → Runs (b.env bps) S op [x, y] p q) :
    Emits exact bps b ((b.emitWith op x line).emitByte y line) p q :=
  ⟨bps, _, .emitWith₂ h line hruns⟩

end Emits

namespace Build

/-- A step that appends the code of an expression. -/
def EmitsOperand (step : Build Unit) : Prop :=
  ∀ ⦃bps : List Blueprint⦄ ⦃b b' : Builder⦄ ⦃u : Unit⦄, Sound bps b → Scoped b →
    Clean step b u b' → Emits false bps b b' (.at []) (.at [.operand])

/-- An expression leaves one more operand above any others. -/
theorem EmitsOperand.above {step : Build Unit} (hstep : EmitsOperand step) {bps : List Blueprint}
    {b b' : Builder} {u : Unit} (hb : Sound bps b) (hscoped : Scoped b) (h : Clean step b u b')
    (X : Shape) : Emits false bps b b' (.at X) (.at (.operand :: X)) :=
  (hstep hb hscoped h).rebase X

variable {bps : List Blueprint} {b b' : Builder} {u : Unit} {token : Token} {X : Shape}

/-! ## Literals and variables -/

/-- A literal leaves an operand. -/
theorem literal_emits {value : Value} {line : Nat} (hvalue : value.isLiteral = true) :
    EmitsOperand (constant value >>= fun index => emitWithAt .constant index line) := by
  intro bps b b' u hb hscoped h
  obtain ⟨index, b₁, hconstant, h⟩ := h.bind
  obtain ⟨chunk, hadd, rfl⟩ := hconstant.of_constant
  obtain ⟨hgrown, v, hv, hv'⟩ := Grown.addLiteral hb hvalue hadd
  obtain rfl := h.of_emitWithAt
  exact (Emission.of_grown hgrown rfl _).andThen
    (.emitWith hgrown.sound fun _ _ => .constant hv hv')

/-- A number literal leaves an operand. -/
theorem numberLiteral_emits : EmitsOperand (numberLiteral token) := by
  intro bps b b' u hb hscoped h
  unfold numberLiteral at h
  dsimp only at h
  split at h
  · next value hvalue =>
    refine literal_emits ?_ hb hscoped h
    split at hvalue
    · obtain ⟨x, -, rfl⟩ := Option.map_eq_some_iff.1 hvalue
      rfl
    · obtain ⟨i, -, rfl⟩ := Option.map_eq_some_iff.1 hvalue
      rfl
  · exact absurd h Clean.not_fail

theorem stringLiteral_emits : EmitsOperand (stringLiteral token) :=
  literal_emits rfl

/-- Reading a variable leaves its value; what it is used for follows from its name, unless it is a
global variable. -/
theorem readVariable_emits {use : SlotKind} (hb : Sound bps b)
    (h : Clean (readVariable token) b u b') (hname : token.lexeme ≠ "super")
    (huse : ∀ k : SlotKind, k = .ofName token.lexeme ∨
      k = .value ∧ ¬ Visible token.lexeme (b.context :: b.enclosing) → k.Serves use) :
    Emits false bps b b' (.at X) (.at (.temp use :: X)) := by
  unfold readVariable at h
  obtain ⟨access, b₁, hresolve, h⟩ := h.bind
  obtain ⟨hgrown, hlocals, hreached⟩ := hresolve.reached hb fun hsuper => absurd hsuper hname
  obtain rfl := h.of_emitWithAt
  refine (Emission.of_grown hgrown hlocals _).andThen (.emitWith hgrown.sound fun S hS => ?_)
  rw [hlocals] at hS
  obtain ⟨k, hreads, hk⟩ := hreached.reads (hS.append X)
  exact .read hreads (huse k hk)

/-- Reading the superclass leaves the value of a captured variable. -/
theorem readSuper_emits (hb : Sound bps b) (h : Clean (readVariable token) b u b')
    (hname : token.lexeme = "super") (hderived : Derived (b.context :: b.enclosing)) :
    Emits false bps b b' (.at X) ⟨.temp .parent :: X, .bound⟩ := by
  unfold readVariable at h
  obtain ⟨access, b₁, hresolve, h⟩ := h.bind
  obtain ⟨hgrown, hlocals, hreached⟩ := hresolve.reached hb fun _ => hderived
  obtain rfl := h.of_emitWithAt
  rw [hname] at hreached
  cases hreached with
  | slot hl hname _ => exact absurd hname (hderived.ne_super _ (mem_of_slot? hl))
  | cell hcell =>
    exact (Emission.of_grown hgrown hlocals _).andThen
      (.emitWith hgrown.sound fun _ _ => .readSuper hcell)
  | global _ hnone => exact absurd hderived.visible hnone

theorem SlotKind.ofName_of_plain {name : String}
    (h : name ≠ "" ∧ name ≠ "self" ∧ name ≠ "super") : SlotKind.ofName name = .value := by
  rw [SlotKind.ofName, if_neg h.2.1, if_neg h.2.2, if_neg h.1]

/-- Every variable but a member can be used as an operand. -/
theorem serves_value {name : String} {contexts : List FunctionContext} (k : SlotKind)
    (h : k = .ofName name ∨ k = .value ∧ ¬ Visible name contexts) : k.Serves .value := by
  rcases h with rfl | ⟨rfl, -⟩
  · refine .inr ⟨rfl, ?_⟩
    unfold SlotKind.ofName
    split
    · simp
    · split
      · simp
      · split <;> simp
  · exact .inl rfl

/-- A variable that is visible is used as its name says. -/
theorem serves_ofName {name : String} {contexts : List FunctionContext}
    (hvisible : Visible name contexts) (k : SlotKind)
    (h : k = .ofName name ∨ k = .value ∧ ¬ Visible name contexts) : k.Serves (.ofName name) := by
  rcases h with rfl | ⟨-, hnone⟩
  · exact .inl rfl
  · exact absurd hvisible hnone

section

-- Naming the superclass is a sequence of eight steps.
set_option synthInstance.maxSize 512

variable {inner : Phrase → Build Unit} [∀ p, Cumulative (inner p)]
  (hinner : ∀ least, EmitsOperand (inner (.expression least)))
include hinner

omit [∀ p, Cumulative (inner p)] in
/-- An expression of any kind emits an operand. -/
theorem anyExpression_emits : EmitsOperand (anyExpression inner) :=
  hinner .assignment

/-- A variable that is read or assigned leaves an operand. -/
theorem variableAccess_emits {canAssign : Bool} (htoken : token.Plain)
    (hkind : token.kind = .identifier) : EmitsOperand (variableAccess inner token canAssign) := by
  intro bps b b' u hb hscoped h
  unfold variableAccess at h
  obtain ⟨access, b₁, hresolve, h⟩ := h.bind
  have hplain := htoken.identifier hkind
  obtain ⟨hgrown, hlocals, hreached⟩ := hresolve.reached hb fun hsuper => absurd hsuper hplain.2.2
  have hfirst : Emission false bps b bps b₁ _ _ _ := .of_grown hgrown hlocals (.at [])
  obtain ⟨assigned, b₂, haccept, h⟩ := h.bind
  rcases haccept.of_acceptAssignment with ⟨rfl, -, -, rfl⟩ | ⟨rfl, -, rfl⟩
  · -- The value is computed first; what is assigned to was found before.
    obtain ⟨_, b₃, hvalue, h⟩ := h.bind
    obtain rfl := h.of_emitWithAt
    obtain ⟨bps₃, code, he⟩ := anyExpression_emits hinner hfirst.thenTake.grown.sound
      (hfirst.thenTake.scoped hscoped) hvalue
    refine hfirst.thenTake.andThen (he.andThen (.emitWith he.grown.sound fun S hS => ?_))
    have hS' := hS.of_raised he.locals
    rw [show b₁.take.context.locals = b.context.locals from hlocals] at hS'
    have hname := SlotKind.ofName_of_plain hplain
    exact .write ((hreached.writes hS' hname).mono (he.grown.env_le hfirst.thenTake.grown.sound)
      (Shape.Le.refl _))
  · obtain rfl := h.of_emitWithAt
    refine hfirst.andThen (.emitWith hgrown.sound fun S hS => ?_)
    rw [hlocals] at hS
    obtain ⟨k, hreads, hk⟩ := hreached.reads hS
    exact .read hreads (serves_value k hk)

/-! ## Lists of expressions -/

/-- Some operands. -/
abbrev operands (n : Nat) : Shape :=
  List.replicate n .operand

omit [∀ p, Cumulative (inner p)] hinner in
/-- The operand below some others is one of them. -/
theorem operands_append_cons (n : Nat) (X : Shape) :
    operands n ++ .operand :: X = operands (n + 1) ++ X := by
  rw [operands, operands, List.replicate_succ', List.append_assoc, List.singleton_append]

/-- The elements of a list leave an operand each, and are not too many. -/
theorem listElements_emits {excess : ErrorKind} {count n : Nat} {items : List ScanItem}
    (hb : Sound bps b) (hscoped : Scoped b)
    (h : Clean (listElements inner excess count items) b n b') (hcount : count ≤ argumentLimit)
    (X : Shape) :
    n ≤ argumentLimit ∧ Emits false bps b b' (.at (operands count ++ X))
      (.at (operands n ++ X)) := by
  induction items generalizing b bps count with
  | nil =>
    unfold listElements at h
    obtain ⟨_, _, _, hfail⟩ := h.bind
    exact absurd hfail Clean.not_fail
  | cons _ rest ih =>
    unfold listElements at h
    obtain ⟨again, b₁, helement, h⟩ := h.bind
    unfold listElement at helement
    obtain ⟨_, b₂, hexpression, helement⟩ := helement.bind
    have hfirst := (anyExpression_emits hinner).above hb hscoped hexpression (operands count ++ X)
    have hfull : count < argumentLimit ∧ Clean (accept .comma) b₂ again b₁ := by
      split at helement
      · obtain ⟨_, _, hfail, _⟩ := helement.bind_get.bind
        exact absurd hfail Clean.not_fail
      · next hne => exact ⟨Nat.lt_of_le_of_ne hcount hne, helement⟩
    rcases hfull.2.of_accept with ⟨rfl, -, rfl⟩ | ⟨rfl, -, rfl⟩
    · obtain ⟨bps₁, code, he⟩ := hfirst.thenTake
      obtain ⟨hn, hrest⟩ := ih he.grown.sound (he.scoped hscoped) h hfull.1
      exact ⟨hn, he.andThen hrest⟩
    · obtain ⟨rfl, rfl⟩ := h.of_pure
      exact ⟨hfull.1, hfirst⟩

/-- A list in brackets or parentheses leaves an operand for each expression. -/
theorem expressionList_emits {excess : ErrorKind} {closing : Expectation} {n : UInt8}
    (hb : Sound bps b) (hscoped : Scoped b)
    (h : Clean (expressionList inner excess closing) b n b') (X : Shape) :
    Emits false bps b b' (.at X) (.at (operands n.toNat ++ X)) := by
  unfold expressionList at h
  obtain ⟨empty, b₁, hcheck, h⟩ := h.bind
  obtain ⟨-, rfl⟩ := hcheck.of_check
  dsimp only at h
  split at h
  · obtain ⟨count, b₂, hcount, h⟩ := h.bind
    obtain ⟨rfl, rfl⟩ := hcount.of_pure
    obtain ⟨_, b₃, hexpect, h⟩ := h.bind
    obtain ⟨-, -, rfl⟩ := hexpect.of_expect
    obtain ⟨rfl, rfl⟩ := h.of_pure
    exact Emits.take hb
  · obtain ⟨count, b₂, hcount, h⟩ := h.bind_get.bind
    obtain ⟨hlimit, hlist⟩ := listElements_emits hinner hb hscoped hcount (Nat.zero_le _) X
    obtain ⟨_, b₃, hexpect, h⟩ := h.bind
    obtain ⟨-, -, rfl⟩ := hexpect.of_expect
    obtain ⟨rfl, rfl⟩ := h.of_pure
    have htoNat : (UInt8.ofNat count).toNat = count := by
      unfold argumentLimit at hlimit
      exact UInt8.toNat_ofNat_of_lt' (Nat.lt_succ_of_le hlimit)
    rw [htoNat]
    exact hlist.thenTake

/-- An array literal leaves an operand. -/
theorem arrayLiteral_emits : EmitsOperand (arrayLiteral inner token) := by
  intro bps b b' u hb hscoped h
  unfold arrayLiteral at h
  obtain ⟨n, b₁, hlist, h⟩ := h.bind
  obtain rfl := h.of_emitWithAt
  obtain ⟨bps₁, code, he⟩ := expressionList_emits hinner hb hscoped hlist []
  exact he.andThen (.emitWith he.grown.sound fun _ _ => .array)

/-! ## Operands -/

omit [∀ p, Cumulative (inner p)] in
/-- A unary operation leaves an operand. -/
theorem unary_emits {op : Opcode} (hop : op ∈ Opcode.unaries) :
    EmitsOperand (unary inner op token) := by
  intro bps b b' u hb hscoped h
  unfold unary at h
  obtain ⟨_, b₁, hoperand, h⟩ := h.bind
  obtain rfl := h.of_emitAt
  obtain ⟨bps₁, code, he⟩ := hinner .unary hb hscoped hoperand
  exact he.andThen (.emit he.grown.sound fun _ _ => .unary hop)

omit [∀ p, Cumulative (inner p)] in
/-- An expression in parentheses leaves an operand. -/
theorem grouping_emits : EmitsOperand (grouping inner) := by
  intro bps b b' u hb hscoped h
  unfold grouping at h
  obtain ⟨_, b₁, hoperand, h⟩ := h.bind
  obtain ⟨_, b₂, hexpect, h⟩ := h.bind
  obtain ⟨-, -, rfl⟩ := hexpect.of_expect
  obtain ⟨-, rfl⟩ := h.of_pure
  exact (anyExpression_emits hinner hb hscoped hoperand).thenTake

omit hinner in
/-- `self` leaves an operand. -/
theorem selfAccess_emits (htoken : token.Plain) (hkind : token.kind = .selfKw) :
    EmitsOperand (selfAccess token) := by
  intro bps b b' u hb hscoped h
  unfold selfAccess at h
  replace h := h.bind_get
  split at h
  · obtain ⟨_, _, hfail, _⟩ := h.bind
    exact absurd hfail Clean.not_fail
  · exact readVariable_emits hb h (htoken.receiver hkind) serves_value

omit hinner in
/-- A superclass that is required is there. -/
theorem of_requireSuperclass (h : Clean (requireSuperclass token) b u b') :
    b.classes.head?.any (·.hasSuperclass) = true ∧ b = b' := by
  unfold requireSuperclass at h
  replace h := h.bind_get
  split at h
  · exact absurd h Clean.not_fail
  · next c hc =>
    split at h
    · exact absurd h Clean.not_fail
    · next hsuper =>
      obtain ⟨-, rfl⟩ := h.of_pure
      exact ⟨by simpa [hc] using hsuper, rfl⟩

/-- What is found through `super` leaves an operand, called or not. -/
theorem superAccess_emits : EmitsOperand (superAccess inner token) := by
  intro bps b b' u hb hscoped h
  unfold superAccess at h
  obtain ⟨_, _, hrequire, h⟩ := h.bind
  obtain ⟨hsuper, rfl⟩ := of_requireSuperclass hrequire
  obtain ⟨_, b₁, hdot, h⟩ := h.bind
  obtain ⟨-, -, rfl⟩ := hdot.of_expect
  obtain ⟨name, b₂, hname, h⟩ := h.bind
  obtain ⟨-, -, rfl⟩ := hname.of_expect
  have he₂ : Emission false bps b bps b.take.take _ _ _ := (Emission.take hb (.at [])).thenTake
  obtain ⟨index, b₃, hconstant, h⟩ := h.bind
  obtain ⟨chunk, hadd, rfl⟩ := hconstant.of_nameConstant
  obtain ⟨hgrown, hnames⟩ := Grown.addName he₂.grown.sound hadd
  have he₃ := he₂.append (Emission.of_grown hgrown rfl (.at []))
  obtain ⟨_, b₄, hself, h⟩ := h.bind
  -- Within a class with a superclass both `this` and `super` are found, as a receiver and as a
  -- parent.
  have hvisible := he₃.scoped hscoped
  rw [Scoped, he₃.grown.classes] at hvisible
  obtain ⟨bps₄, c₄, he₄⟩ := readVariable_emits (X := []) he₃.grown.sound hself (by simp)
    (serves_ofName (hvisible hsuper).1)
  have hnames₄ := (he₄.grown.env_le hgrown.sound).constants hnames
  have he₄' := he₃.append he₄
  have hderived₄ : ∀ {bps₅ b₅ c₅ q}, Emission false bps₄ b₄ bps₅ b₅ (.at [.temp .receiver]) c₅ q →
      Derived (b₅.context :: b₅.enclosing) := by
    intro bps₅ b₅ c₅ q he₅
    have hscoped₅ := (he₄'.append he₅).scoped hscoped
    rw [Scoped, (he₄'.append he₅).grown.classes] at hscoped₅
    exact (hscoped₅ hsuper).2
  obtain ⟨called, b₅, haccept, h⟩ := h.bind
  rcases haccept.of_accept with ⟨rfl, -, rfl⟩ | ⟨rfl, -, rfl⟩
  · -- Called at once: the superclass is read above the receiver and the arguments.
    obtain ⟨count, b₆, harguments, h⟩ := h.bind
    have he₅ : Emission false bps₄ b₄ bps₄ b₄.take _ _ _ :=
      .take he₄.grown.sound (.at [.temp .receiver])
    obtain ⟨bps₆, c₆, he₆⟩ := expressionList_emits hinner he₅.grown.sound
      ((he₄'.append he₅).scoped hscoped) harguments [.temp .receiver]
    obtain ⟨_, b₇, hread, h⟩ := h.bind
    obtain ⟨bps₇, c₇, he₇⟩ := readSuper_emits (X := operands count.toNat ++ [.temp .receiver])
      he₆.grown.sound hread rfl (hderived₄ (he₅.append he₆))
    obtain ⟨_, b₈, hinvoke, h⟩ := h.bind
    obtain rfl := hinvoke.of_emitWithAt
    obtain rfl := h.of_emitByteAt
    have hnames₇ := ((he₅.append (he₆.append he₇)).grown.env_le he₄.grown.sound).constants hnames₄
    refine he₄'.andThen ((he₅.append (he₆.append he₇)).andThen (.emitWith₂ he₇.grown.sound ?_))
    exact fun _ _ => .invokeSuper hnames₇
  · obtain ⟨_, b₆, hread, h⟩ := h.bind
    obtain ⟨bps₆, c₆, he₆⟩ := readSuper_emits (X := [.temp .receiver]) he₄.grown.sound hread rfl
      (hderived₄ (.refl he₄.grown.sound _))
    obtain rfl := h.of_emitWithAt
    have hnames₆ := (he₆.grown.env_le he₄.grown.sound).constants hnames₄
    exact he₄'.andThen (he₆.andThen (.emitWith he₆.grown.sound fun _ _ => .getSuper hnames₆))

/-- Every primary expression leaves an operand. -/
theorem primary_emits {canAssign : Bool} (htoken : token.Plain) :
    EmitsOperand (primary inner token canAssign) := by
  intro bps b b' u hb hscoped h
  unfold primary at h
  split at h
  · exact unary_emits hinner (by decide) hb hscoped h
  · exact unary_emits hinner (by decide) hb hscoped h
  · exact numberLiteral_emits hb hscoped h
  · exact stringLiteral_emits hb hscoped h
  · exact h.of_emitAt ▸ Emits.emit hb fun _ _ => .push (by decide)
  · exact h.of_emitAt ▸ Emits.emit hb fun _ _ => .push (by decide)
  · exact h.of_emitAt ▸ Emits.emit hb fun _ _ => .push (by decide)
  · next hkind => exact variableAccess_emits hinner htoken hkind hb hscoped h
  · next hkind => exact selfAccess_emits htoken hkind hb hscoped h
  · exact superAccess_emits hinner hb hscoped h
  · exact grouping_emits hinner hb hscoped h
  · exact arrayLiteral_emits hinner hb hscoped h
  · exact absurd h Clean.not_fail

/-! ## Continuations -/

/-- A step that goes on with an expression behind its first operand. -/
def EmitsContinuation (step : Build Unit) : Prop :=
  ∀ ⦃bps : List Blueprint⦄ ⦃b b' : Builder⦄ ⦃u : Unit⦄, Sound bps b → Scoped b →
    Clean step b u b' → Emits false bps b b' (.at [.operand]) (.at [.operand])

/-- The second operand of a conjunction takes the place of the first one. -/
theorem conjunction_emits : EmitsContinuation (conjunction inner token) := by
  intro bps b b' u hb hscoped h
  unfold conjunction at h
  obtain ⟨skip, b₁, hjump, h⟩ := h.bind
  obtain ⟨rfl, rfl⟩ := hjump.of_emitJump
  obtain ⟨_, b₂, hpop, h⟩ := h.bind
  obtain rfl := hpop.of_emitAt
  obtain ⟨_, b₃, hoperand, h⟩ := h.bind
  obtain ⟨chunk, hpatch, rfl⟩ := h.of_patchJump
  have hjumped := Grown.emitJump hb .jumpIfFalse token.line
  have hdropped : Emission false bps (b.emitJump .jumpIfFalse token.line) bps _
    (.at [.operand]) _ (.at []) :=
    .emit hjumped.sound token.line fun _ _ => .pop
  obtain ⟨bps₃, code, he⟩ := hinner .and hdropped.grown.sound
    (hdropped.scoped (hjumped.scoped_of_locals rfl hscoped)) hoperand
  exact ⟨bps₃, _, .conditional hb (hdropped.append he) hpatch⟩

/-- The second operand of a disjunction takes the place of the first one. -/
theorem disjunction_emits : EmitsContinuation (disjunction inner token) := by
  intro bps b b' u hb hscoped h
  unfold disjunction at h
  obtain ⟨go, b₁, hgo, h⟩ := h.bind
  obtain ⟨rfl, rfl⟩ := hgo.of_emitJump
  obtain ⟨skip, b₂, hskip, h⟩ := h.bind
  obtain ⟨rfl, rfl⟩ := hskip.of_emitJump
  obtain ⟨_, b₃, hland, h⟩ := h.bind
  obtain ⟨chunk, hpatch, rfl⟩ := hland.of_patchJump
  obtain ⟨_, b₄, hpop, h⟩ := h.bind
  obtain rfl := hpop.of_emitAt
  obtain ⟨_, b₅, hoperand, h⟩ := h.bind
  obtain ⟨chunk', hpatch', rfl⟩ := h.of_patchJump
  have hgo := Grown.emitJump hb .jumpIfFalse token.line
  obtain ⟨-, hlanded, -⟩ := Grown.landed hb (.refl hgo.sound) hpatch
  have hdropped : Emission false bps _ bps _ (.at [.operand]) _ (.at []) :=
    .emit hlanded.sound token.line fun _ _ => .pop
  obtain ⟨bps₅, code, he⟩ := hinner .or hdropped.grown.sound
    (hdropped.scoped (hlanded.scoped_of_locals rfl hscoped)) hoperand
  exact ⟨bps₅, _, .branch hb (.refl hgo.sound _) hpatch (hdropped.append he) hpatch'⟩

omit [∀ p, Cumulative (inner p)] in
/-- A subscript takes the place of its operand. -/
theorem subscript_emits : EmitsContinuation (subscript inner token) := by
  intro bps b b' u hb hscoped h
  unfold subscript at h
  obtain ⟨_, b₁, hoperand, h⟩ := h.bind
  obtain ⟨_, b₂, hexpect, h⟩ := h.bind
  obtain ⟨-, -, rfl⟩ := hexpect.of_expect
  obtain rfl := h.of_emitWithAt
  obtain ⟨bps₁, code, he⟩ :=
    ((anyExpression_emits hinner).above hb hscoped hoperand [.operand]).thenTake
  exact he.andThen (.emitWith he.grown.sound fun _ _ => .call)

/-- A property, a call of a method or an assignment takes the place of its operand. -/
theorem property_emits {canAssign : Bool} : EmitsContinuation (property inner canAssign) := by
  intro bps b b' u hb hscoped h
  unfold property at h
  obtain ⟨name, b₁, hname, h⟩ := h.bind
  obtain ⟨-, -, rfl⟩ := hname.of_expect
  have he₁ : Emission false bps b bps b.take _ _ _ := .take hb (.at [.operand])
  obtain ⟨index, b₂, hconstant, h⟩ := h.bind
  obtain ⟨chunk, hadd, rfl⟩ := hconstant.of_nameConstant
  obtain ⟨hgrown, hnames⟩ := Grown.addName he₁.grown.sound hadd
  have he₂ := he₁.append (Emission.of_grown hgrown rfl (.at [.operand]))
  have htaken : Emission false bps _ bps _ _ _ _ := .take hgrown.sound (.at [.operand])
  obtain ⟨assigned, b₃, haccept, h⟩ := h.bind
  rcases haccept.of_acceptAssignment with ⟨rfl, -, -, rfl⟩ | ⟨rfl, -, rfl⟩
  · obtain ⟨_, b₄, hvalue, h⟩ := h.bind
    obtain rfl := h.of_emitWithAt
    obtain ⟨bps₄, code, he⟩ := (anyExpression_emits hinner).above htaken.grown.sound
      ((he₂.append htaken).scoped hscoped) hvalue [.operand]
    have hnames₄ := ((htaken.append he).grown.env_le hgrown.sound).constants hnames
    exact he₂.andThen ((htaken.append he).andThen
      (.emitWith he.grown.sound fun _ _ => .setProperty hnames₄))
  · obtain ⟨called, b₄, hcall, h⟩ := h.bind
    rcases hcall.of_accept with ⟨rfl, -, rfl⟩ | ⟨rfl, -, rfl⟩
    · obtain ⟨count, b₅, harguments, h⟩ := h.bind
      obtain ⟨_, b₆, hinvoke, h⟩ := h.bind
      obtain rfl := hinvoke.of_emitWithAt
      obtain rfl := h.of_emitByteAt
      obtain ⟨bps₅, code, he⟩ := expressionList_emits hinner htaken.grown.sound
        ((he₂.append htaken).scoped hscoped) harguments [.operand]
      have hnames₅ := ((htaken.append he).grown.env_le hgrown.sound).constants hnames
      refine he₂.andThen ((htaken.append he).andThen (.emitWith₂ he.grown.sound fun _ _ => ?_))
      rw [operands_append_cons]
      exact .invoke hnames₅
    · obtain rfl := h.of_emitWithAt
      exact he₂.andThen (.emitWith hgrown.sound fun _ _ => .getProperty hnames)

/-- A call takes the place of what is called. -/
theorem call_emits :
    EmitsContinuation (arguments inner >>= fun count => emitWithAt .call count token.line) := by
  intro bps b b' u hb hscoped h
  obtain ⟨count, b₁, harguments, h⟩ := h.bind
  obtain rfl := h.of_emitWithAt
  obtain ⟨bps₁, code, he⟩ := expressionList_emits hinner hb hscoped harguments [.operand]
  refine he.andThen (.emitWith he.grown.sound fun _ _ => ?_)
  rw [operands_append_cons]
  exact .call

omit [∀ p, Cumulative (inner p)] hinner in
/-- Instructions that change an operand leave it in place. -/
theorem unaries_emit {ops : List Opcode} {line : Nat} (hops : ∀ op ∈ ops, op ∈ Opcode.unaries)
    (hb : Sound bps b) (h : Clean (ops.forM fun op => emitAt op line) b u b') :
    Emits false bps b b' (.at [.operand]) (.at [.operand]) := by
  induction ops generalizing b with
  | nil =>
    obtain rfl := h.forM_nil
    exact ⟨bps, [], .refl hb _⟩
  | cons op rest ih =>
    obtain ⟨_, b₁, hemit, h⟩ := h.forM_cons
    obtain rfl := hemit.of_emitAt
    have he : Emission false bps b bps _ (.at [.operand]) _ (.at [.operand]) :=
      .emit hb line fun _ _ => .unary (hops op List.mem_cons_self)
    exact he.andThen (ih (fun op hop => hops op (List.mem_cons_of_mem _ hop)) he.grown.sound h)

omit [∀ p, Cumulative (inner p)] in
/-- Instructions that combine two operands, and then change the result. -/
theorem binary_emits {least : Precedence} {op : Opcode} {ops : List Opcode}
    (hop : op ∈ Opcode.binaries) (hops : ∀ op ∈ ops, op ∈ Opcode.unaries) :
    EmitsContinuation (inner (.expression least) >>= fun _ =>
      (op :: ops).forM fun op => emitAt op token.line) := by
  intro bps b b' u hb hscoped h
  obtain ⟨_, b₁, hoperand, h⟩ := h.bind
  obtain ⟨bps₁, code, he⟩ := (hinner least).above hb hscoped hoperand [.operand]
  obtain ⟨_, b₂, hemit, h⟩ := h.forM_cons
  obtain rfl := hemit.of_emitAt
  have he₂ : Emission false bps₁ b₁ bps₁ _ (.at [.operand, .operand]) _ (.at [.operand]) :=
    .emit he.grown.sound token.line fun _ _ => .binary hop
  exact he.andThen (he₂.andThen (unaries_emit hops he₂.grown.sound h))

omit [∀ p, Cumulative (inner p)] hinner in
/-- The instructions of a binary operator. -/
theorem binary_ops_of_continuation? {kind : TokenKind} {precedence least : Precedence}
    {ops : List Opcode} (h : continuation? kind = some (precedence, .binary least ops)) :
    ∃ op rest, ops = op :: rest ∧ op ∈ Opcode.binaries ∧ ∀ op ∈ rest, op ∈ Opcode.unaries := by
  unfold continuation? at h
  split at h <;> simp only [Option.some.injEq, Prod.mk.injEq, Continuation.binary.injEq,
    reduceCtorEq, and_false] at h <;> obtain ⟨-, -, rfl⟩ := h <;>
    exact ⟨_, _, rfl, by decide, by decide⟩

/-- One more operator leaves one operand. -/
theorem continueOnce_emits {least : Precedence} {canAssign : Bool} {again : Bool}
    (hb : Sound bps b) (hscoped : Scoped b)
    (h : Clean (continueOnce inner least canAssign) b again b') :
    Emits false bps b b' (.at [.operand]) (.at [.operand]) := by
  unfold continueOnce at h
  obtain ⟨token, _, hpeek, h⟩ := h.bind_of_cumulative fun token => by split <;> infer_instance
  obtain ⟨rfl, rfl⟩ := hpeek.of_peek
  split at h
  · next precedence continuation hcontinuation =>
    split at h
    · obtain ⟨-, rfl⟩ := h.of_pure
      exact ⟨bps, [], .refl hb _⟩
    · obtain ⟨token, b₁, hadvance, h⟩ := h.bind
      obtain ⟨rfl, rfl⟩ := hadvance.of_advance
      obtain ⟨_, b₂, hcontinue, h⟩ := h.bind
      obtain ⟨-, rfl⟩ := h.of_pure
      have htaken : Emission false bps b bps b.take _ _ _ := .take hb (.at [.operand])
      have hsound := htaken.grown.sound
      have hscoped' := htaken.scoped hscoped
      refine htaken.andThen ?_
      -- One lemma for each operator, each from one operand to one operand.
      unfold continueWith at hcontinue
      split at hcontinue
      · obtain ⟨op, rest, rfl, hop, hrest⟩ := binary_ops_of_continuation? hcontinuation
        exact binary_emits hinner hop hrest hsound hscoped' hcontinue
      · exact conjunction_emits hinner hsound hscoped' hcontinue
      · exact disjunction_emits hinner hsound hscoped' hcontinue
      · exact call_emits hinner hsound hscoped' hcontinue
      · exact subscript_emits hinner hsound hscoped' hcontinue
      · exact property_emits hinner hsound hscoped' hcontinue
  · obtain ⟨-, rfl⟩ := h.of_pure
    exact ⟨bps, [], .refl hb _⟩

/-- **The code of an expression leaves one operand.** -/
theorem expression_emits (least : Precedence) : EmitsOperand (expression inner least) := by
  intro bps b b' u hb hscoped h
  unfold expression at h
  obtain ⟨token, b₁, hadvance, h⟩ := h.bind
  obtain ⟨rfl, rfl⟩ := hadvance.of_advance
  have htaken : Emission false bps b bps b.take _ _ _ := .take hb (.at [])
  obtain ⟨_, b₂, hprimary, h⟩ := h.bind
  have hfirst := htaken.andThen (primary_emits hinner (Builder.next_plain hb) htaken.grown.sound
    (htaken.scoped hscoped) hprimary)
  obtain ⟨_, b₃, hrepeat, h⟩ := h.bind
  -- What was read so far is an operand, whatever the next token is.
  obtain ⟨b₄, hrest, hlast⟩ := hrepeat.repeatWhile
    (I := fun b' => Emits false bps b b' (.at []) (.at [.operand])) hfirst fun b₄ b₅ hb₄ hround =>
      hb₄.append hscoped fun _ hsound hscoped₄ => continueOnce_emits hinner hsound hscoped₄ hround
  have hwhole := hrest.append hscoped fun _ hsound hscoped₄ =>
    continueOnce_emits hinner hsound hscoped₄ hlast
  split at h
  · obtain ⟨next, _, hpeek, h⟩ := h.bind
    obtain ⟨rfl, rfl⟩ := hpeek.of_peek
    split at h
    · exact absurd h Clean.not_fail
    · obtain ⟨-, rfl⟩ := h.of_pure
      exact hwhole
  · obtain ⟨-, rfl⟩ := h.of_pure
    exact hwhole

end

end Build

end ScriptVM
