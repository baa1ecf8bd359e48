/-
# Building without complaints

A step of building a program may fail, and a failure may be caught further out; what it never does
is to withdraw a complaint (`Cumulative`).  So a source that compiles went through its whole build
without one, and what is said about compiled code need only be said of such runs (`Clean`).

Main statement: a clean run of a sequence of steps is a sequence of clean runs (`Clean.bind`).
-/
import ScriptVM.Program

namespace ScriptVM.Build

variable {α β : Type}

/-- The state that a step leaves behind, whether it fails or not. -/
def after (step : Build α) (b : Builder) : Builder :=
  match step b with
  | .ok _ b' => b'
  | .error _ b' => b'

/-- A step that keeps all complaints made before it. -/
class Cumulative (step : Build α) : Prop where
  /-- There are at least as many complaints as before. -/
  size_le : ∀ b, b.errors.size ≤ (after step b).errors.size

theorem size_errors_le (step : Build α) [Cumulative step] (b : Builder) :
    b.errors.size ≤ (after step b).errors.size :=
  Cumulative.size_le b

/-- A run of a step that succeeds and ends without a complaint. -/
def Clean (step : Build α) (b : Builder) (a : α) (b' : Builder) : Prop :=
  step b = .ok a b' ∧ b'.errors = #[]

/-! ## The steps of the monad -/

theorem after_of_ok {step : Build α} {b b' : Builder} {a : α} (h : step b = .ok a b') :
    after step b = b' := by
  rw [after, h]

theorem after_of_error {step : Build α} {b b' : Builder} {e : CompileError}
    (h : step b = .error e b') : after step b = b' := by
  rw [after, h]

instance (a : α) : Cumulative (pure a : Build α) := ⟨fun _ => Nat.le_refl _⟩

instance : Cumulative (get : Build Builder) := ⟨fun _ => Nat.le_refl _⟩

instance (e : CompileError) : Cumulative (throw e : Build α) := ⟨fun _ => Nat.le_refl _⟩

theorem modify_eq (f : Builder → Builder) (b : Builder) :
    (modify f : Build Unit) b = .ok () (f b) := rfl

theorem bind_of_ok {x : Build α} {f : α → Build β} {b b₁ : Builder} {a : α}
    (h : x b = .ok a b₁) : (x >>= f) b = f a b₁ := by
  show EStateM.bind x f b = f a b₁
  rw [EStateM.bind, h]

theorem bind_of_error {x : Build α} {f : α → Build β} {b b₁ : Builder} {e : CompileError}
    (h : x b = .error e b₁) : (x >>= f) b = .error e b₁ := by
  show EStateM.bind x f b = .error e b₁
  rw [EStateM.bind, h]

instance (x : Build α) (f : α → Build β) [Cumulative x] [∀ a, Cumulative (f a)] :
    Cumulative (x >>= f) where
  size_le b := by
    have hx := size_errors_le x b
    rcases h : x b with ⟨a, b₁⟩ | ⟨e, b₁⟩
    · rw [after_of_ok h] at hx
      have hf := size_errors_le (f a) b₁
      have hbind : after (x >>= f) b = after (f a) b₁ := by
        rw [after, after, bind_of_ok h]
      rw [hbind]
      exact Nat.le_trans hx hf
    · rw [after_of_error h] at hx
      rw [after_of_error (bind_of_error h)]
      exact hx

theorem cumulative_bind {x : Build α} {f : α → Build β} (hx : Cumulative x)
    (hf : ∀ a, Cumulative (f a)) : Cumulative (x >>= f) :=
  inferInstance

instance (f : α → β) (x : Build α) [Cumulative x] : Cumulative (f <$> x) where
  size_le b := by
    have hx := size_errors_le x b
    have hmap : after (f <$> x) b = after x b := by
      show after (EStateM.map f x) b = after x b
      rw [after, after, EStateM.map]
      cases x b <;> rfl
    rw [hmap]
    exact hx

instance (c : Prop) [Decidable c] (x y : Build α) [Cumulative x] [Cumulative y] :
    Cumulative (if c then x else y) := by
  split <;> infer_instance

/-- A step that leaves the complaints alone. -/
theorem cumulative_modify {f : Builder → Builder} (h : ∀ b, (f b).errors = b.errors) :
    Cumulative (modify f : Build Unit) :=
  ⟨fun b => by
    show b.errors.size ≤ (f b).errors.size
    exact Nat.le_of_eq (congrArg Array.size (h b).symm)⟩

/-! ## Clean runs -/

namespace Clean

variable {step : Build α} {b b' : Builder} {a : α}

/-- A clean run started without complaints. -/
theorem errors_before [Cumulative step] (h : Clean step b a b') : b.errors = #[] := by
  have hle := size_errors_le step b
  rw [after_of_ok h.1, h.2] at hle
  exact Array.eq_empty_of_size_eq_zero (by simpa using hle)

/-- **A clean run of two steps in a row is a clean run of each.** -/
theorem bind {x : Build α} {f : α → Build β} {c : β} [∀ a, Cumulative (f a)]
    (h : Clean (x >>= f) b c b') : ∃ a b₁, Clean x b a b₁ ∧ Clean (f a) b₁ c b' := by
  obtain ⟨hrun, herrors⟩ := h
  rcases hx : x b with ⟨a, b₁⟩ | ⟨e, b₁⟩
  · rw [bind_of_ok hx] at hrun
    have hf : Clean (f a) b₁ c b' := ⟨hrun, herrors⟩
    exact ⟨a, b₁, ⟨hx, hf.errors_before⟩, hf⟩
  · rw [bind_of_error hx] at hrun
    exact absurd hrun (by simp)

theorem bind_of_cumulative {x : Build α} {f : α → Build β} {c : β}
    (h : Clean (x >>= f) b c b') (hf : ∀ a, Cumulative (f a)) :
    ∃ a b₁, Clean x b a b₁ ∧ Clean (f a) b₁ c b' :=
  h.bind

/-- What is made of a result is clean just if the result is. -/
theorem map {f : α → β} {x : Build α} {c : β} (h : Clean (f <$> x) b c b') :
    ∃ a, Clean x b a b' ∧ c = f a := by
  obtain ⟨hrun, herrors⟩ := h
  change EStateM.map f x b = .ok c b' at hrun
  rw [EStateM.map] at hrun
  rcases hx : x b with ⟨a, b₁⟩ | ⟨e, b₁⟩
  · rw [hx] at hrun
    injection hrun with hc hb
    subst hb
    exact ⟨a, ⟨hx, herrors⟩, hc.symm⟩
  · rw [hx] at hrun
    exact absurd hrun (by simp)

/-- A value that is given is the result. -/
theorem of_pure {a' : α} (h : Clean (Pure.pure a' : Build α) b a b') : a' = a ∧ b = b' := by
  obtain ⟨hrun, -⟩ := h
  change EStateM.Result.ok a' b = .ok a b' at hrun
  injection hrun with ha hb
  exact ⟨ha, hb⟩

/-- The builder that is looked at is the one at hand. -/
theorem of_get {c : Builder} (h : Clean (get : Build Builder) b c b') : b = c ∧ b = b' := by
  obtain ⟨hrun, -⟩ := h
  change EStateM.Result.ok b b = .ok c b' at hrun
  injection hrun with hc hb
  exact ⟨hc, hb⟩

/-- A builder that is changed is the changed one. -/
theorem of_modify {f : Builder → Builder} {u : Unit} (h : Clean (modify f : Build Unit) b u b') :
    f b = b' := by
  obtain ⟨hrun, -⟩ := h
  change EStateM.Result.ok () (f b) = .ok u b' at hrun
  injection hrun with _ hb

theorem bind_get {f : Builder → Build β} {c : β} (h : Clean (get >>= f) b c b') :
    Clean (f b) b c b' :=
  h

theorem bind_modify {g : Builder → Builder} {f : PUnit → Build β} {c : β}
    (h : Clean (modify g >>= f) b c b') : Clean (f ⟨⟩) (g b) c b' :=
  h

theorem not_throw {e : CompileError} : ¬ Clean (throw e : Build α) b a b' := by
  rintro ⟨hrun, -⟩
  change EStateM.Result.error e b = .ok a b' at hrun
  exact absurd hrun (by simp)

end Clean

/-! ## The small steps -/

instance (token : Token) (kind : ErrorKind) : Cumulative (fail token kind : Build α) :=
  ⟨fun _ => Nat.le_refl _⟩

theorem Clean.not_fail {token : Token} {kind : ErrorKind} {b b' : Builder} {a : α} :
    ¬ Clean (fail token kind) b a b' := by
  rintro ⟨hrun, -⟩
  exact absurd hrun (by simp [fail])

instance (e : CompileError) : Cumulative (note e) :=
  ⟨fun b => by
    show b.errors.size ≤ (b.errors.push e).size
    simp⟩

/-- A complaint is not clean. -/
theorem Clean.not_note {e : CompileError} {b b' : Builder} {u : Unit} :
    ¬ Clean (note e) b u b' := by
  intro h
  have hb := h.of_modify
  have herrors := h.2
  rw [← hb] at herrors
  exact absurd herrors (by simp)

instance (token : Token) (kind : ErrorKind) : Cumulative (noteAt token kind) :=
  ⟨fun b => by
    show b.errors.size ≤ (b.errors.push (errorAt b.source token kind)).size
    simp⟩

/-- A complaint about a token is not clean. -/
theorem Clean.not_noteAt {token : Token} {kind : ErrorKind} {b b' : Builder} {u : Unit} :
    ¬ Clean (noteAt token kind) b u b' := by
  rintro ⟨hrun, herrors⟩
  rw [noteAt] at hrun
  exact Clean.not_note ⟨hrun, herrors⟩

instance (step : Build α) [Cumulative step] : Cumulative (attempt step) where
  size_le b := by
    have hstep := size_errors_le step b
    have hafter : after (attempt step) b = after step b := by
      rw [after, after, attempt]
      cases step b <;> rfl
    rw [hafter]
    exact hstep

/-- A step that is tried and succeeds is clean. -/
theorem Clean.attempt_ok {step : Build α} {b b' : Builder} {a : α}
    (h : Clean (attempt step) b (.ok a) b') : Clean step b a b' := by
  obtain ⟨hrun, herrors⟩ := h
  rw [attempt] at hrun
  split at hrun
  · next hstep =>
    injection hrun with ha hb
    injection ha with ha
    subst ha hb
    exact ⟨hstep, herrors⟩
  · simp at hrun

instance (outcome : Except CompileError α) : Cumulative (conclude outcome) := by
  cases outcome <;> (unfold conclude; infer_instance)

/-- An outcome that is concluded cleanly is a result. -/
theorem Clean.of_conclude {outcome : Except CompileError α} {b b' : Builder} {a : α}
    (h : Clean (conclude outcome) b a b') : outcome = .ok a ∧ b = b' := by
  cases outcome with
  | ok a' =>
    obtain ⟨rfl, rfl⟩ := Clean.of_pure h
    exact ⟨rfl, rfl⟩
  | error e => exact absurd h Clean.not_throw

instance (token : Token) (outcome : Except ErrorKind α) : Cumulative (orFailAt token outcome) := by
  cases outcome <;> (unfold orFailAt; infer_instance)

/-- What may be refused is clean just if it is not. -/
theorem Clean.bind_orFailAt {token : Token} {outcome : Except ErrorKind α} {f : α → Build β}
    {b b' : Builder} {c : β} (h : Clean (orFailAt token outcome >>= f) b c b') :
    ∃ a, outcome = .ok a ∧ Clean (f a) b c b' := by
  cases outcome with
  | ok a => exact ⟨a, rfl, h⟩
  | error e => exact absurd h.1 (by simp [bind_of_error (x := orFailAt token (.error e)) rfl])

/-! ## Tokens -/

/-- Settling adds complaints and takes none away. -/
theorem size_le_settle (source : String) (errors : Array CompileError) (items : List ScanItem) :
    errors.size ≤ (settle source errors items).1.size := by
  induction items generalizing errors with
  | nil => exact Nat.le_refl _
  | cons item rest ih =>
    cases item with
    | ok token => exact Nat.le_refl _
    | error e =>
      refine Nat.le_trans ?_ (ih (errors.push (scanErrorAt source e)))
      rw [Array.size_push]
      omega

instance : Cumulative peek := ⟨fun b => size_le_settle b.source b.errors b.pending⟩

instance : Cumulative advance := by
  unfold advance
  refine cumulative_bind inferInstance fun token => ?_
  exact cumulative_bind (cumulative_modify fun _ => rfl) fun _ => inferInstance

instance (kind : TokenKind) : Cumulative (check kind) := by
  unfold check
  infer_instance

instance (kind : TokenKind) : Cumulative (atEnd kind) := by
  unfold atEnd
  infer_instance

instance (kind : TokenKind) : Cumulative (accept kind) := by
  unfold accept
  infer_instance

instance (canAssign : Bool) : Cumulative (acceptAssignment canAssign) := by
  unfold acceptAssignment
  infer_instance

instance (what : Expectation) : Cumulative (expect what) := by
  unfold expect
  infer_instance

/-! ## Repetition -/

instance (round : Build Bool) [Cumulative round] (items : List ScanItem) :
    Cumulative (repeatOver round items) := by
  induction items with
  | nil =>
    unfold repeatOver
    infer_instance
  | cons _ rest ih =>
    unfold repeatOver
    infer_instance

instance (round : Build Bool) [Cumulative round] : Cumulative (repeatWhile round) := by
  unfold repeatWhile
  infer_instance

/-- **What every round keeps, a repetition keeps**; its last round asks for no other. -/
theorem Clean.repeatWhile {round : Build Bool} [Cumulative round] {b b' : Builder} {u : Unit}
    (h : Clean (Build.repeatWhile round) b u b') {I : Builder → Prop} (hb : I b)
    (hround : ∀ b₁ b₂, I b₁ → Clean round b₁ true b₂ → I b₂) :
    ∃ b₁, I b₁ ∧ Clean round b₁ false b' := by
  unfold Build.repeatWhile at h
  obtain ⟨_, _, hget, hrun⟩ := h.bind
  obtain ⟨rfl, rfl⟩ := hget.of_get
  clear h hget
  -- The list only counts the rounds, so the induction is on it and not on the state.
  generalize b.pending = items at hrun
  induction items generalizing b with
  | nil =>
    unfold repeatOver at hrun
    obtain ⟨_, _, _, hfail⟩ := hrun.bind
    exact absurd hfail Clean.not_fail
  | cons _ rest ih =>
    unfold repeatOver at hrun
    obtain ⟨again, b₂, hr, hrest⟩ := hrun.bind
    cases again with
    | true => exact ih (hround b b₂ hb hr) hrest
    | false =>
      obtain ⟨-, rfl⟩ := Clean.of_pure hrest
      exact ⟨b, hb, hr⟩

/-! ## Code, variables and scopes -/

instance : Cumulative previousLine := by
  unfold previousLine
  infer_instance

instance (f : FunctionContext → FunctionContext) : Cumulative (modifyContext f) :=
  cumulative_modify fun _ => rfl

instance (f : Chunk → Chunk) : Cumulative (modifyChunk f) := by
  unfold modifyChunk
  infer_instance

instance : Cumulative codeSize := by
  unfold codeSize
  infer_instance

instance (op : Opcode) (line : Nat) : Cumulative (emitAt op line) := by
  unfold emitAt
  infer_instance

instance (op : Opcode) : Cumulative (emit op) := by
  unfold emit
  infer_instance

instance (op : Opcode) (operand : UInt8) (line : Nat) :
    Cumulative (emitWithAt op operand line) := by
  unfold emitWithAt
  infer_instance

instance (byte : UInt8) (line : Nat) : Cumulative (emitByteAt byte line) := by
  unfold emitByteAt
  infer_instance

instance : Cumulative emitReturn := by
  unfold emitReturn
  infer_instance

instance (op : Opcode) (line : Nat) : Cumulative (emitJump op line) := by
  unfold emitJump
  infer_instance

instance (outcome : Except JumpError Chunk) : Cumulative (setChunk outcome) := by
  cases outcome <;> (unfold setChunk; infer_instance)

instance (offset : Nat) : Cumulative (patchJump offset) := by
  unfold patchJump
  infer_instance

instance (start line : Nat) : Cumulative (emitLoop start line) := by
  unfold emitLoop
  infer_instance

instance (token : Token) (value : Value) : Cumulative (constantAt token value) := by
  unfold constantAt
  refine cumulative_bind inferInstance fun b => cumulative_bind inferInstance fun _ => ?_
  split <;> infer_instance

instance (value : Value) : Cumulative (constant value) := by
  unfold constant
  infer_instance

instance (name : Token) : Cumulative (nameConstant name) := by
  unfold nameConstant
  infer_instance

instance (name : String) (token : Token) : Cumulative (addLocal name token) := by
  unfold addLocal
  infer_instance

instance (name : Token) : Cumulative (declareVariable name) := by
  unfold declareVariable
  infer_instance

instance : Cumulative markInitialized := by
  unfold markInitialized
  infer_instance

instance (name? : Option UInt8) : Cumulative (defineVariable name?) := by
  cases name? <;> (unfold defineVariable; infer_instance)

instance : Cumulative variableName := by
  unfold variableName
  infer_instance



instance (token : Token) : Cumulative (resolve token) := by
  unfold resolve
  refine cumulative_bind inferInstance fun b => cumulative_bind inferInstance fun slot? => ?_
  split
  · infer_instance
  · refine cumulative_bind (cumulative_modify fun _ => rfl) fun _ => ?_
    refine cumulative_bind inferInstance fun index? => ?_
    split <;> infer_instance

instance (token : Token) : Cumulative (readVariable token) := by
  unfold readVariable
  infer_instance

instance : Cumulative beginScope := by
  unfold beginScope
  infer_instance

instance {γ : Type} (xs : List γ) (f : γ → Build PUnit) [∀ x, Cumulative (f x)] :
    Cumulative (xs.forM f) := by
  induction xs with
  | nil => exact inferInstanceAs (Cumulative (pure _))
  | cons x rest ih => exact inferInstanceAs (Cumulative (f x >>= fun _ => rest.forM f))

theorem Clean.forM_nil {γ : Type} {f : γ → Build PUnit} {b b' : Builder} {u : PUnit}
    (h : Clean (List.forM [] f) b u b') : b = b' :=
  (Clean.of_pure h).2

/-- A step for each item of a list is clean for the first one and then for the others. -/
theorem Clean.forM_cons {γ : Type} {f : γ → Build PUnit} [∀ x, Cumulative (f x)] {x : γ}
    {rest : List γ} {b b' : Builder} {u : PUnit} (h : Clean ((x :: rest).forM f) b u b') :
    ∃ v b₁, Clean (f x) b v b₁ ∧ Clean (rest.forM f) b₁ u b' := by
  have h' : Clean (f x >>= fun _ => rest.forM f) b u b' := h
  exact h'.bind

theorem forM_array_toList {γ : Type} (xs : Array γ) (f : γ → Build PUnit) :
    xs.forM f = xs.toList.forM f := by
  cases xs
  exact List.forM_toArray _ _

instance {γ : Type} (xs : Array γ) (f : γ → Build PUnit) [∀ x, Cumulative (f x)] :
    Cumulative (xs.forM f) := by
  rw [forM_array_toList]
  infer_instance

instance : Cumulative endScope := by
  unfold endScope
  infer_instance

instance (step : Build Unit) [Cumulative step] : Cumulative (inScope step) := by
  unfold inScope
  infer_instance

instance (name : String) (kind : FunctionKind) : Cumulative (beginFunction name kind) :=
  cumulative_modify fun _ => rfl

instance : Cumulative endFunction := by
  unfold endFunction
  refine cumulative_bind inferInstance fun _ => cumulative_bind inferInstance fun finished => ?_
  exact cumulative_bind (cumulative_modify fun b => by split <;> rfl) fun _ => inferInstance

instance (finished : FunctionContext) : Cumulative (keepFunction finished) := by
  unfold keepFunction
  refine cumulative_bind inferInstance fun b => ?_
  exact cumulative_bind (cumulative_modify fun _ => rfl) fun _ => inferInstance

instance (finished : FunctionContext) (line : Nat) : Cumulative (emitClosure finished line) := by
  unfold emitClosure
  infer_instance



/-! ## Phrases -/

section

-- The longest phrases are sequences of a dozen steps.
set_option synthInstance.maxSize 512

variable (inner : Phrase → Build Unit) [∀ p, Cumulative (inner p)]

instance : Cumulative (anyExpression inner) := by
  unfold anyExpression
  infer_instance

instance (excess : ErrorKind) (count : Nat) : Cumulative (listElement inner excess count) := by
  unfold listElement
  infer_instance

instance (excess : ErrorKind) (count : Nat) (items : List ScanItem) :
    Cumulative (listElements inner excess count items) := by
  induction items generalizing count with
  | nil =>
    unfold listElements
    infer_instance
  | cons _ rest ih =>
    unfold listElements
    infer_instance

instance (excess : ErrorKind) (closing : Expectation) :
    Cumulative (expressionList inner excess closing) := by
  unfold expressionList
  infer_instance

instance : Cumulative (arguments inner) := by
  unfold arguments
  infer_instance

instance (token : Token) : Cumulative (numberLiteral token) := by
  unfold numberLiteral
  dsimp only
  split <;> infer_instance

instance (token : Token) : Cumulative (stringLiteral token) := by
  unfold stringLiteral
  infer_instance

instance (token : Token) : Cumulative (arrayLiteral inner token) := by
  unfold arrayLiteral
  infer_instance

instance (op : Opcode) (token : Token) : Cumulative (unary inner op token) := by
  unfold unary
  infer_instance

instance : Cumulative (grouping inner) := by
  unfold grouping
  infer_instance

instance (token : Token) (canAssign : Bool) :
    Cumulative (variableAccess inner token canAssign) := by
  unfold variableAccess
  infer_instance

instance (token : Token) : Cumulative (selfAccess token) := by
  unfold selfAccess
  infer_instance

instance (token : Token) : Cumulative (requireSuperclass token) := by
  unfold requireSuperclass
  refine cumulative_bind inferInstance fun b => ?_
  split <;> infer_instance

instance (token : Token) : Cumulative (superAccess inner token) := by
  unfold superAccess
  infer_instance

instance (token : Token) (canAssign : Bool) : Cumulative (primary inner token canAssign) := by
  unfold primary
  split <;> infer_instance

instance (token : Token) : Cumulative (conjunction inner token) := by
  unfold conjunction
  infer_instance

instance (token : Token) : Cumulative (disjunction inner token) := by
  unfold disjunction
  infer_instance

instance (token : Token) : Cumulative (subscript inner token) := by
  unfold subscript
  infer_instance

instance (canAssign : Bool) : Cumulative (property inner canAssign) := by
  unfold property
  infer_instance

instance (token : Token) (canAssign : Bool) (continuation : Continuation) :
    Cumulative (continueWith inner token canAssign continuation) := by
  unfold continueWith
  split <;> infer_instance

instance (least : Precedence) (canAssign : Bool) :
    Cumulative (continueOnce inner least canAssign) := by
  unfold continueOnce
  refine cumulative_bind inferInstance fun token => ?_
  split <;> infer_instance

instance (least : Precedence) : Cumulative (expression inner least) := by
  unfold expression
  dsimp only
  infer_instance

instance (closing : TokenKind) : Cumulative (blockRound inner closing) := by
  unfold blockRound
  infer_instance

instance : Cumulative (block inner) := by
  unfold block
  infer_instance

instance (jump line : Nat) : Cumulative (landAndDrop jump line) := by
  unfold landAndDrop
  infer_instance

instance : Cumulative (alternative inner) := by
  unfold alternative
  infer_instance

instance : Cumulative (conditional inner) := by
  unfold conditional
  infer_instance

instance : Cumulative (whileLoop inner) := by
  unfold whileLoop
  infer_instance

instance (keyword : Token) : Cumulative (returnStatement inner keyword) := by
  unfold returnStatement
  refine cumulative_bind inferInstance fun b => ?_
  split <;> infer_instance

instance (keyword : Token) : Cumulative (printStatement inner keyword) := by
  unfold printStatement
  infer_instance

instance : Cumulative (expressionStatement inner) := by
  unfold expressionStatement
  infer_instance

instance : Cumulative (statement inner) := by
  unfold statement
  refine cumulative_bind inferInstance fun token => ?_
  split <;> infer_instance

instance : Cumulative parameter := by
  unfold parameter
  dsimp only
  infer_instance

instance : Cumulative parameters := by
  unfold parameters
  infer_instance

instance (hasParameters : Bool) : Cumulative (functionBody inner hasParameters) := by
  unfold functionBody
  infer_instance

instance (name : String) (kind : FunctionKind) (hasParameters : Bool) :
    Cumulative (function inner name kind hasParameters) := by
  unfold function
  infer_instance

instance : Cumulative (variableDeclaration inner) := by
  unfold variableDeclaration
  infer_instance

instance : Cumulative (functionDeclaration inner) := by
  unfold functionDeclaration
  infer_instance

instance : Cumulative (member inner) := by
  unfold member
  infer_instance

instance : Cumulative (memberRound inner) := by
  unfold memberRound
  infer_instance

instance : Cumulative markSuperclass :=
  cumulative_modify fun b => by split <;> rfl

instance (name : Token) : Cumulative (superclass name) := by
  unfold superclass
  infer_instance

instance (name : Token) : Cumulative (classBody inner name) := by
  unfold classBody
  infer_instance

instance : Cumulative beginClass :=
  cumulative_modify fun _ => rfl

instance : Cumulative endClass := by
  unfold endClass
  refine cumulative_bind inferInstance fun b => ?_
  exact cumulative_bind (cumulative_modify fun _ => rfl) fun _ => inferInstance

instance : Cumulative (classDeclaration inner) := by
  unfold classDeclaration
  infer_instance

instance : Cumulative synchronizeRound := by
  unfold synchronizeRound
  infer_instance

instance : Cumulative synchronize := by
  unfold synchronize
  infer_instance

instance : Cumulative (tryDeclaration inner) := by
  unfold tryDeclaration
  refine cumulative_bind inferInstance fun token => ?_
  split <;> infer_instance

instance : Cumulative (declaration inner) := by
  unfold declaration
  refine cumulative_bind inferInstance fun outcome => ?_
  split <;> infer_instance

end

/-- **No phrase withdraws a complaint.** -/
instance cumulative_phrase (depth : Nat) (p : Phrase) : Cumulative (phrase depth p) := by
  induction depth generalizing p with
  | zero =>
    unfold phrase
    infer_instance
  | succ depth ih => cases p <;> (unfold phrase; infer_instance)

end ScriptVM.Build
