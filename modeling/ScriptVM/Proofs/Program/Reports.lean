/-
# What is reported about a source

While a program is built the items of its source are read one behind the other, and each error among
them is noted at the moment it is passed.  So at any time the errors that have been noted, together
with those that are still to be read, are the errors of the source (`Builder.Reports.scanned`),
whatever other complaints there are and whatever recovery passes over.

Every other complaint is about a token of the source.  It carries the line of that token, and shows
the line of the source that has this number (`CompileError.Placed`).

Main statements: `Program.compileAfter_scanErrors`, `Program.compileAfter_excerpt`.
-/
import ScriptVM.Proofs.Program.Complaints
import ScriptVM.Proofs.Program.Termination
import ScriptVM.Proofs.Token.Lines

namespace ScriptVM

/-! ## Errors that are read -/

/-- Whether a cause is an error that is read. -/
abbrev ErrorKind.isScan : ErrorKind → Bool
  | .scan _ => true
  | _ => false

/-- The error that a complaint is about, if it has been read. -/
def CompileError.scanError? (e : CompileError) : Option ScanError :=
  match e.kind with
  | .scan error => some error
  | _ => none

/-- The error that an item is, if it is no token. -/
def ScanItem.error? : ScanItem → Option ScanError
  | .ok _ => none
  | .error e => some e

/-- The errors that are read in a source, in order. -/
def scanErrors (source : String) : List ScanError :=
  (scan source).filterMap (·.error?)

/-- A complaint that is no error that is read has none. -/
theorem CompileError.scanError?_eq_none {e : CompileError} (h : e.kind.isScan = false) :
    e.scanError? = none := by
  unfold scanError?
  split
  · next hkind => rw [hkind] at h; cases h
  · rfl

/-! ## Places -/

/-- The place with an offset is on a line. -/
def OnLine (source : String) (start line : Nat) : Prop :=
  ∃ before after, DividedAt source start before after ∧ line = lineBehind before

/-- The offset of what a complaint is about. -/
def CompileError.start (e : CompileError) : Nat :=
  match e.token?, e.scanError? with
  | some token, _ => token.start
  | none, some error => error.start
  | none, none => 0

/-- A complaint about a place of a source, which shows the line on which it is. -/
structure CompileError.Placed (source : String) (e : CompileError) : Prop where
  /-- The line is that of the place. -/
  line : OnLine source e.start e.line
  /-- The line is shown. -/
  excerpt : e.excerpt = Text.lineAt source e.line

/-- The source of a builder is read, and reported on. -/
structure Builder.Reports (source : String) (b : Builder) : Prop where
  /-- It is its source. -/
  source_eq : b.source = source
  /-- Its last items are still to be read. -/
  pending : b.pending <:+ scan source
  /-- The end token is among them. -/
  pending_ne : b.pending ≠ []
  /-- The last token is one of the source. -/
  previous : OnLine source b.previous.start b.previous.line
  /-- Its errors have been noted, or are still to be read. -/
  scanned : b.errors.toList.filterMap (·.scanError?) ++ b.pending.filterMap (·.error?) =
    scanErrors source
  /-- The complaints have their places. -/
  placed : ∀ e ∈ b.errors, e.Placed source

/-- Values in which places may occur. -/
class HasPlaces (α : Type) where
  /-- The places in a value are those of a source. -/
  Placed : String → α → Prop

instance (priority := low) {α : Type} : HasPlaces α := ⟨fun _ _ => True⟩
instance : HasPlaces Token := ⟨fun source token => OnLine source token.start token.line⟩
instance : HasPlaces Builder := ⟨Builder.Reports⟩
instance {α : Type} [HasPlaces α] : HasPlaces (Except CompileError α) where
  Placed source
    | .ok a => HasPlaces.Placed source a
    | .error e => e.Placed source ∧ e.scanError? = none

/-- A value with the places of a source. -/
class Placed {α : Type} [HasPlaces α] (source : String) (a : α) : Prop where
  /-- Its places are those of the source. -/
  placed : HasPlaces.Placed source a

/-- The values with the places of a source. -/
structure PlacedValue (source : String) (α : Type) [HasPlaces α] where
  /-- The value. -/
  val : α
  /-- Its places are those of the source. -/
  placed : HasPlaces.Placed source val

/-- What is false. -/
class Never (c : Bool) : Prop where
  /-- It is false. -/
  eq : c = false

instance : Never false := ⟨rfl⟩

section

variable {source : String}

instance {α : Type} [HasPlaces α] (a : PlacedValue source α) : Placed source a.val :=
  ⟨a.placed⟩

instance (priority := low) {α : Type} (a : α) : Placed source a := ⟨trivial⟩

instance (b : Builder) [h : Placed source b] : Placed source b.previous := ⟨h.placed.previous⟩

instance (kind : TokenKind) (lexeme : String) (token : Token) [h : Placed source token] :
    Placed source (Token.mk kind lexeme token.start token.line) := ⟨h.placed⟩

end

namespace Build

variable {α β : Type} [HasPlaces α] [HasPlaces β] {source : String}

/-- An outcome after which the source has been reported on as far as it has been read. -/
def Reported (source : String) : EStateM.Result CompileError Builder α → Prop
  | .ok a b => HasPlaces.Placed source a ∧ b.Reports source
  | .error e b => (e.Placed source ∧ e.scanError? = none) ∧ b.Reports source

/-- A step that goes on reporting on a source. -/
class Reports (source : String) (x : Build α) : Prop where
  /-- It does so from any state. -/
  run : ∀ b : Builder, b.Reports source → Reported source (x b)

/-! ## Steps -/

/-- A step goes on reporting if both of its parts do, the second one behind any value with the
places of the source. -/
theorem Reports.bind {x : Build α} {f : α → Build β} (hx : Reports source x)
    (hf : ∀ a : PlacedValue source α, Reports source (f a.val)) : Reports source (x >>= f) where
  run b hb := by
    have hrun := hx.run b hb
    rcases h : x b with ⟨a, b₁⟩ | ⟨e, b₁⟩
    · rw [h] at hrun
      rw [bind_of_ok h]
      exact (hf ⟨a, hrun.1⟩).run b₁ hrun.2
    · rw [h] at hrun
      rw [bind_of_error h]
      exact hrun

instance (x : Build α) (f : α → Build β) [Reports source x]
    [∀ a : PlacedValue source α, Reports source (f a.val)] : Reports source (x >>= f) :=
  .bind inferInstance inferInstance

instance (a : α) [h : Placed source a] : Reports source (pure a : Build α) :=
  ⟨fun _ hb => ⟨h.placed, hb⟩⟩

instance : Reports source (get : Build Builder) := ⟨fun _ hb => ⟨hb, hb⟩⟩

theorem reports_modify {f : Builder → Builder}
    (h : ∀ b : Builder, b.Reports source → (f b).Reports source) :
    Reports source (modify f : Build Unit) :=
  ⟨fun b hb => ⟨trivial, h b hb⟩⟩

/-- What leaves the source and the complaints alone goes on reporting. -/
theorem reports_congr {b b' : Builder} (h : b.Reports source)
    (hsource : b'.source = b.source) (hpending : b'.pending = b.pending)
    (hprevious : b'.previous = b.previous) (herrors : b'.errors = b.errors) :
    b'.Reports source where
  source_eq := hsource.trans h.source_eq
  pending := hpending ▸ h.pending
  pending_ne := hpending ▸ h.pending_ne
  previous := hprevious ▸ h.previous
  scanned := by rw [herrors, hpending, h.scanned]
  placed := herrors ▸ h.placed

instance (f : α → β) (x : Build α) [hx : Reports source x] [∀ a, Placed source (f a)] :
    Reports source (f <$> x) where
  run b hb := by
    have hrun := hx.run b hb
    show Reported source (EStateM.map f x b)
    rw [EStateM.map]
    rcases h : x b with ⟨a, b₁⟩ | ⟨e, b₁⟩
    · rw [h] at hrun
      exact ⟨Placed.placed, hrun.2⟩
    · rw [h] at hrun
      exact hrun

instance (c : Prop) [Decidable c] (x y : Build α) [Reports source x] [Reports source y] :
    Reports source (if c then x else y) := by
  split <;> infer_instance

/-! ## Complaints -/

theorem placed_errorAt (token : Token) [h : Placed source token] (kind : ErrorKind)
    [hkind : Never kind.isScan] :
    (errorAt source token kind).Placed source ∧ (errorAt source token kind).scanError? = none :=
  ⟨⟨h.placed, rfl⟩, CompileError.scanError?_eq_none hkind.eq⟩

theorem placed_scanErrorAt {e : ScanError} (h : .error e ∈ scan source) :
    (scanErrorAt source e).Placed source :=
  ⟨Text.Cutting.exists_dividedAt_of_mem_scan h, rfl⟩

instance (token : Token) [Placed source token] (kind : ErrorKind) [Never kind.isScan] :
    Reports source (fail token kind : Build α) :=
  ⟨fun b hb => by
    rw [fail, hb.source_eq]
    exact ⟨placed_errorAt token kind, hb⟩⟩

/-- A complaint that is no error that is read is noted without more. -/
theorem reports_note {e : CompileError} (he : e.Placed source ∧ e.scanError? = none) :
    Reports source (note e) :=
  reports_modify fun b hb => { hb with
    scanned := by
      rw [Array.toList_push, List.filterMap_append, List.filterMap_cons_none he.2]
      simpa using hb.scanned
    placed := fun e' he' => by
      rcases Array.mem_push.1 he' with he' | rfl
      · exact hb.placed e' he'
      · exact he.1 }

instance (token : Token) [Placed source token] (kind : ErrorKind) [Never kind.isScan] :
    Reports source (noteAt token kind) :=
  ⟨fun b hb => by
    rw [noteAt, hb.source_eq]
    exact (reports_note (placed_errorAt token kind)).run b hb⟩

instance (x : Build α) [hx : Reports source x] : Reports source (attempt x) where
  run b hb := by
    have hrun := hx.run b hb
    rw [attempt]
    rcases h : x b with ⟨a, b₁⟩ | ⟨e, b₁⟩ <;> (rw [h] at hrun; exact hrun)

instance (outcome : Except CompileError α) [h : Placed source outcome] :
    Reports source (conclude outcome) := by
  cases outcome with
  | ok a => exact ⟨fun _ hb => ⟨h.placed, hb⟩⟩
  | error e => exact ⟨fun _ hb => ⟨h.placed, hb⟩⟩

/-- An outcome that fails with no error that is read goes on reporting. -/
theorem reports_orFailAt {α : Type} (token : Token) [Placed source token]
    {outcome : Except ErrorKind α} (h : ∀ kind, outcome = .error kind → kind.isScan = false) :
    Reports source (orFailAt token outcome) := by
  cases outcome with
  | ok a =>
    unfold orFailAt
    infer_instance
  | error kind =>
    have : Never kind.isScan := ⟨h kind rfl⟩
    unfold orFailAt
    infer_instance

/-! ## Tokens -/

/-- Errors are noted as they are passed. -/
theorem reports_settle {b : Builder} (hb : b.Reports source) :
    Builder.Reports source { b with
      errors := (settle b.source b.errors b.pending).1
      pending := (settle b.source b.errors b.pending).2 } ∧
    ∃ token rest, (settle b.source b.errors b.pending).2 = .ok token :: rest := by
  obtain ⟨source', pending, previous, context, enclosing, classes, errors, functions⟩ := b
  obtain rfl : source' = source := hb.source_eq
  dsimp only
  induction pending generalizing errors with
  | nil => exact absurd rfl hb.pending_ne
  | cons item rest ih =>
    cases item with
    | ok token => exact ⟨hb, token, rest, rfl⟩
    | error e =>
      have hmem : .error e ∈ scan source' := hb.pending.subset List.mem_cons_self
      refine ih _ ⟨rfl, (List.suffix_cons _ _).trans hb.pending, ?_, hb.previous, ?_, ?_⟩
      · -- The end token is behind the error.
        obtain ⟨items, last, hscan, -, -⟩ := scan_eq_concat source'
        rintro (rfl : rest = [])
        have hlast := hb.pending.getLast (List.cons_ne_nil _ _)
        simp [hscan] at hlast
      · have hscanned := hb.scanned
        simpa [ScanItem.error?, CompileError.scanError?, scanErrorAt] using hscanned
      · intro e' he'
        rcases Array.mem_push.1 he' with he' | rfl
        · exact hb.placed e' he'
        · exact placed_scanErrorAt hmem

instance : Reports source peek where
  run b hb := by
    obtain ⟨hsettled, token, rest, hpending⟩ := reports_settle hb
    unfold peek
    dsimp only
    rw [hpending, firstToken]
    have hmem : .ok token ∈ scan source :=
      hsettled.pending.subset (by rw [hpending]; exact List.mem_cons_self)
    rw [hpending] at hsettled
    exact ⟨Text.Cutting.exists_dividedAt_of_mem_scan hmem, hsettled⟩

/-- Taking a token that is not the end token leaves the end token. -/
theorem pending_tail_ne {b : Builder} (hb : b.Reports source) {token : Token}
    {rest : List ScanItem} (hpending : b.pending = .ok token :: rest)
    (hkind : token.kind ≠ .eof) : rest ≠ [] := by
  rintro rfl
  obtain ⟨items, last, hscan, hlast, -⟩ := scan_eq_concat source
  have hsuffix := hb.pending
  rw [hpending, hscan] at hsuffix
  have := hsuffix.getLast (List.cons_ne_nil _ _)
  simp at this
  exact hkind (this ▸ hlast)

instance : Reports source advance where
  run b hb := by
    obtain ⟨hsettled, token, rest, hpending⟩ := reports_settle hb
    have hmem : .ok token ∈ scan source :=
      hsettled.pending.subset (by dsimp only; rw [hpending]; exact List.mem_cons_self)
    have hline : OnLine source token.start token.line :=
      Text.Cutting.exists_dividedAt_of_mem_scan hmem
    have hpeek : peek b = .ok token { b with
        errors := (settle b.source b.errors b.pending).1
        pending := (settle b.source b.errors b.pending).2 } := by
      unfold peek
      dsimp only
      rw [hpending, firstToken]
    unfold advance
    rw [bind_of_ok hpeek]
    refine ⟨hline, ?_⟩
    dsimp only
    split
    · exact { hsettled with previous := hline }
    · next hkind =>
      have hscanned := hsettled.scanned
      rw [hpending] at hscanned ⊢
      exact {
        source_eq := hsettled.source_eq
        pending := (List.suffix_cons _ _).trans (hpending ▸ hsettled.pending)
        pending_ne := pending_tail_ne hsettled hpending hkind
        previous := hline
        scanned := hscanned
        placed := hsettled.placed }

instance (kind : TokenKind) : Reports source (check kind) := by
  unfold check
  infer_instance

instance (kind : TokenKind) : Reports source (atEnd kind) := by
  unfold atEnd
  infer_instance

instance (kind : TokenKind) : Reports source (accept kind) := by
  unfold accept
  infer_instance

instance (canAssign : Bool) : Reports source (acceptAssignment canAssign) := by
  unfold acceptAssignment
  infer_instance

instance (what : Expectation) : Reports source (expect what) := by
  unfold expect
  infer_instance

/-! ## Repetition -/

instance (round : Build Bool) [Reports source round] (items : List ScanItem) :
    Reports source (repeatOver round items) := by
  induction items with
  | nil =>
    unfold repeatOver
    infer_instance
  | cons _ rest ih =>
    unfold repeatOver
    infer_instance

instance (round : Build Bool) [Reports source round] : Reports source (repeatWhile round) := by
  unfold repeatWhile
  infer_instance

/-! ## Code, variables and scopes -/

instance : Reports source previousLine := by
  unfold previousLine
  infer_instance

instance (f : FunctionContext → FunctionContext) : Reports source (modifyContext f) :=
  reports_modify fun _ hb => reports_congr hb rfl rfl rfl rfl

instance (f : Chunk → Chunk) : Reports source (modifyChunk f) := by
  unfold modifyChunk
  infer_instance

instance : Reports source codeSize := by
  unfold codeSize
  infer_instance

instance (op : Opcode) (line : Nat) : Reports source (emitAt op line) := by
  unfold emitAt
  infer_instance

instance (op : Opcode) : Reports source (emit op) := by
  unfold emit
  infer_instance

instance (op : Opcode) (operand : UInt8) (line : Nat) :
    Reports source (emitWithAt op operand line) := by
  unfold emitWithAt
  infer_instance

instance (byte : UInt8) (line : Nat) : Reports source (emitByteAt byte line) := by
  unfold emitByteAt
  infer_instance

instance : Reports source emitReturn := by
  unfold emitReturn
  infer_instance

instance (op : Opcode) (line : Nat) : Reports source (emitJump op line) := by
  unfold emitJump
  infer_instance

instance (outcome : Except JumpError Chunk) : Reports source (setChunk outcome) := by
  cases outcome <;> (unfold setChunk; infer_instance)

instance (offset : Nat) : Reports source (patchJump offset) := by
  unfold patchJump
  infer_instance

instance (start line : Nat) : Reports source (emitLoop start line) := by
  unfold emitLoop
  infer_instance

instance (token : Token) [Placed source token] (value : Value) :
    Reports source (constantAt token value) := by
  unfold constantAt
  refine .bind inferInstance fun b => .bind inferInstance fun _ => ?_
  split <;> infer_instance

instance (value : Value) : Reports source (constant value) := by
  unfold constant
  infer_instance

instance (name : Token) [Placed source name] : Reports source (nameConstant name) := by
  unfold nameConstant
  infer_instance

instance (name : String) (token : Token) [Placed source token] :
    Reports source (addLocal name token) := by
  unfold addLocal
  refine .bind inferInstance fun b => .bind (reports_orFailAt token fun kind hkind => ?_)
    fun _ => inferInstance
  rw [FunctionContext.addLocal] at hkind
  split at hkind <;> cases hkind
  rfl

instance (name : Token) [Placed source name] : Reports source (declareVariable name) := by
  unfold declareVariable
  infer_instance

instance : Reports source markInitialized := by
  unfold markInitialized
  infer_instance

instance (name? : Option UInt8) : Reports source (defineVariable name?) := by
  cases name? <;> (unfold defineVariable; infer_instance)

instance : Reports source variableName := by
  unfold variableName
  infer_instance

instance (token : Token) [Placed source token] : Reports source (resolve token) := by
  unfold resolve
  refine .bind inferInstance fun b =>
    .bind (reports_orFailAt token fun _ h => kind_of_resolveLocal h ▸ rfl) fun slot? => ?_
  split
  · infer_instance
  · refine .bind (reports_modify fun _ hb => reports_congr hb rfl rfl rfl rfl) fun _ =>
      .bind (reports_orFailAt token fun _ h => ?_) fun index? => ?_
    · obtain rfl | rfl := kind_of_resolveCapture h <;> rfl
    · split <;> infer_instance

instance (token : Token) [Placed source token] : Reports source (readVariable token) := by
  unfold readVariable
  infer_instance

instance : Reports source beginScope := by
  unfold beginScope
  infer_instance

instance {γ : Type} (xs : List γ) (f : γ → Build PUnit) [∀ x, Reports source (f x)] :
    Reports source (xs.forM f) := by
  induction xs with
  | nil => exact inferInstanceAs (Reports source (pure _))
  | cons x rest ih =>
    exact .bind (x := f x) (f := fun _ => rest.forM f) inferInstance fun _ => inferInstance

instance {γ : Type} (xs : Array γ) (f : γ → Build PUnit) [∀ x, Reports source (f x)] :
    Reports source (xs.forM f) := by
  rw [forM_array_toList]
  infer_instance

instance : Reports source endScope := by
  unfold endScope
  infer_instance

instance (step : Build Unit) [Reports source step] : Reports source (inScope step) := by
  unfold inScope
  infer_instance

instance (name : String) (kind : FunctionKind) : Reports source (beginFunction name kind) :=
  reports_modify fun _ hb => reports_congr hb rfl rfl rfl rfl

instance : Reports source endFunction := by
  unfold endFunction
  refine .bind inferInstance fun _ => .bind inferInstance fun finished =>
    .bind (reports_modify fun b hb => ?_) fun _ => inferInstance
  split <;> exact reports_congr hb rfl rfl rfl rfl

instance (finished : FunctionContext) : Reports source (keepFunction finished) := by
  unfold keepFunction
  exact .bind inferInstance fun _ =>
    .bind (reports_modify fun _ hb => reports_congr hb rfl rfl rfl rfl) fun _ => inferInstance

instance (finished : FunctionContext) (line : Nat) :
    Reports source (emitClosure finished line) := by
  unfold emitClosure
  infer_instance

/-! ## Phrases -/

section

-- The longest phrases are sequences of a dozen steps.
set_option synthInstance.maxSize 1024

variable (inner : Phrase → Build Unit) [∀ p, Reports source (inner p)]

instance : Reports source (anyExpression inner) := by
  unfold anyExpression
  infer_instance

instance (excess : ErrorKind) [Never excess.isScan] (count : Nat) :
    Reports source (listElement inner excess count) := by
  unfold listElement
  infer_instance

instance (excess : ErrorKind) [Never excess.isScan] (count : Nat) (items : List ScanItem) :
    Reports source (listElements inner excess count items) := by
  induction items generalizing count with
  | nil =>
    unfold listElements
    infer_instance
  | cons _ rest ih =>
    unfold listElements
    infer_instance

instance (excess : ErrorKind) [Never excess.isScan] (closing : Expectation) :
    Reports source (expressionList inner excess closing) := by
  unfold expressionList
  infer_instance

instance : Reports source (arguments inner) := by
  unfold arguments
  infer_instance

instance (token : Token) [Placed source token] : Reports source (numberLiteral token) := by
  unfold numberLiteral
  dsimp only
  split <;> infer_instance

instance (token : Token) [Placed source token] : Reports source (stringLiteral token) := by
  unfold stringLiteral
  infer_instance

instance (token : Token) [Placed source token] : Reports source (arrayLiteral inner token) := by
  unfold arrayLiteral
  infer_instance

instance (op : Opcode) (token : Token) [Placed source token] :
    Reports source (unary inner op token) := by
  unfold unary
  infer_instance

instance : Reports source (grouping inner) := by
  unfold grouping
  infer_instance

instance (token : Token) [Placed source token] (canAssign : Bool) :
    Reports source (variableAccess inner token canAssign) := by
  unfold variableAccess
  infer_instance

instance (token : Token) [Placed source token] : Reports source (selfAccess token) := by
  unfold selfAccess
  infer_instance

instance (token : Token) [Placed source token] : Reports source (requireSuperclass token) := by
  unfold requireSuperclass
  refine .bind inferInstance fun b => ?_
  split <;> infer_instance

instance (token : Token) [Placed source token] : Reports source (superAccess inner token) := by
  unfold superAccess
  dsimp only
  infer_instance

instance (token : Token) [Placed source token] (canAssign : Bool) :
    Reports source (primary inner token canAssign) := by
  unfold primary
  split <;> infer_instance

instance (token : Token) [Placed source token] : Reports source (conjunction inner token) := by
  unfold conjunction
  infer_instance

instance (token : Token) [Placed source token] : Reports source (disjunction inner token) := by
  unfold disjunction
  infer_instance

instance (token : Token) [Placed source token] : Reports source (subscript inner token) := by
  unfold subscript
  infer_instance

instance (canAssign : Bool) : Reports source (property inner canAssign) := by
  unfold property
  infer_instance

instance (token : Token) [Placed source token] (canAssign : Bool) (continuation : Continuation) :
    Reports source (continueWith inner token canAssign continuation) := by
  unfold continueWith
  split <;> infer_instance

instance (least : Precedence) (canAssign : Bool) :
    Reports source (continueOnce inner least canAssign) := by
  unfold continueOnce
  refine .bind inferInstance fun token => ?_
  split <;> infer_instance

instance (least : Precedence) : Reports source (expression inner least) := by
  unfold expression
  dsimp only
  infer_instance

instance (closing : TokenKind) : Reports source (blockRound inner closing) := by
  unfold blockRound
  infer_instance

instance : Reports source (block inner) := by
  unfold block
  infer_instance

instance (jump line : Nat) : Reports source (landAndDrop jump line) := by
  unfold landAndDrop
  infer_instance

instance : Reports source (alternative inner) := by
  unfold alternative
  infer_instance

instance : Reports source (conditional inner) := by
  unfold conditional
  infer_instance

instance : Reports source (whileLoop inner) := by
  unfold whileLoop
  infer_instance

instance (keyword : Token) [Placed source keyword] :
    Reports source (returnStatement inner keyword) := by
  unfold returnStatement
  refine .bind inferInstance fun b => ?_
  split <;> infer_instance

instance (keyword : Token) [Placed source keyword] :
    Reports source (printStatement inner keyword) := by
  unfold printStatement
  infer_instance

instance : Reports source (expressionStatement inner) := by
  unfold expressionStatement
  infer_instance

instance : Reports source (statement inner) := by
  unfold statement
  refine .bind inferInstance fun token => ?_
  split <;> infer_instance

instance : Reports source parameter := by
  unfold parameter
  dsimp only
  infer_instance

instance : Reports source parameters := by
  unfold parameters
  infer_instance

instance (hasParameters : Bool) : Reports source (functionBody inner hasParameters) := by
  unfold functionBody
  infer_instance

instance (name : String) (kind : FunctionKind) (hasParameters : Bool) :
    Reports source (function inner name kind hasParameters) := by
  unfold function
  infer_instance

instance : Reports source (variableDeclaration inner) := by
  unfold variableDeclaration
  infer_instance

instance : Reports source (functionDeclaration inner) := by
  unfold functionDeclaration
  infer_instance

instance : Reports source (member inner) := by
  unfold member
  infer_instance

instance : Reports source (memberRound inner) := by
  unfold memberRound
  infer_instance

instance : Reports source markSuperclass :=
  reports_modify fun b hb => by split <;> exact reports_congr hb rfl rfl rfl rfl

instance (name : Token) [Placed source name] : Reports source (superclass name) := by
  unfold superclass
  infer_instance

instance (name : Token) [Placed source name] : Reports source (classBody inner name) := by
  unfold classBody
  infer_instance

instance : Reports source beginClass :=
  reports_modify fun _ hb => reports_congr hb rfl rfl rfl rfl

instance : Reports source endClass := by
  unfold endClass
  exact .bind inferInstance fun _ =>
    .bind (reports_modify fun _ hb => reports_congr hb rfl rfl rfl rfl) fun _ => inferInstance

instance : Reports source (classDeclaration inner) := by
  unfold classDeclaration
  infer_instance

instance : Reports source synchronizeRound := by
  unfold synchronizeRound
  infer_instance

instance : Reports source synchronize := by
  unfold synchronize
  infer_instance

instance : Reports source (tryDeclaration inner) := by
  unfold tryDeclaration
  refine .bind inferInstance fun token => ?_
  split <;> infer_instance

instance : Reports source (declaration inner) := by
  unfold declaration
  refine .bind inferInstance fun outcome => ?_
  rcases outcome with ⟨e | a, hplaced⟩
  · exact .bind (reports_note hplaced) fun _ => inferInstance
  · infer_instance

end


/-- **Every phrase goes on reporting.** -/
instance reports_phrase (depth : Nat) (p : Phrase) : Reports source (phrase depth p) := by
  induction depth generalizing p with
  | zero =>
    unfold phrase
    infer_instance
  | succ depth ih => cases p <;> (unfold phrase; infer_instance)

end Build

/-! ## Whole sources -/

open Build

/-- A builder that has just started has read nothing, and has reported nothing. -/
theorem reports_start (functions : Array Function) (source : String) :
    (Builder.start functions source (scan source)).Reports source where
  source_eq := rfl
  pending := List.suffix_refl _
  pending_ne := by
    obtain ⟨items, last, hscan, -⟩ := scan_eq_concat source
    simp [Builder.start, hscan]
  previous := ⟨[], _, ⟨rfl, rfl⟩, rfl⟩
  scanned := rfl
  placed _ he := absurd he (Array.not_mem_empty _)

/-- Behind an end token there is nothing to read. -/
theorem nil_of_eof_suffix {source : String} {token : Token} {rest : List ScanItem}
    (h : .ok token :: rest <:+ scan source) (hkind : token.kind = .eof) : rest = [] := by
  obtain ⟨items, last, hscan, -, honly, -⟩ := scan_eq_concat source
  obtain ⟨front, hfront⟩ := hscan ▸ h
  rcases List.eq_nil_or_concat rest with rfl | ⟨rest', x, rfl⟩
  · rfl
  · have hitems : front ++ .ok token :: rest' = items := by
      have happend : (front ++ .ok token :: rest') ++ [x] = items ++ [.ok last] := by
        simpa using hfront
      exact (List.append_inj' happend rfl).1
    exact absurd hkind (honly token (hitems ▸ by simp))

/-- **A source is reported on, and read to its end.** -/
theorem complete_reports (functions : Array Function) (source : String) :
    (Builder.complete functions source).Reports source ∧
      (Builder.complete functions source).pending.filterMap (·.error?) = [] := by
  obtain ⟨b, token, hrun, -, hpeek, hkind, -⟩ :=
    declarations_spec functions source (Nat.le_refl _)
  have hdeclarations : Reports source (declarations (2 * (scan source).length + 2)) := by
    unfold declarations
    infer_instance
  have hb := hdeclarations.run _ (reports_start functions source)
  rw [hrun] at hb
  have hread : b.pending.filterMap (·.error?) = [] := by
    obtain ⟨hsettled, first, rest, hpending⟩ := reports_settle hb.2
    obtain ⟨htoken, hafter⟩ := EStateM.Result.ok.inj hpeek
    rw [hpending] at htoken hafter hsettled
    obtain rfl : first = token := htoken
    rw [nil_of_eof_suffix hsettled.pending hkind] at hafter
    rw [← hafter]
    rfl
  obtain ⟨context, hreturn⟩ := exists_emitReturn b
  have hcomplete : Builder.complete functions source = { b with context } := by
    simp only [Builder.complete, bind_of_ok hrun, hreturn]
  rw [hcomplete]
  exact ⟨reports_congr hb.2 rfl rfl rfl rfl, hread⟩

namespace Program

/-- **Every error that is read is reported once**, in the order of the source, whatever else is
wrong with it. -/
theorem compileAfter_scanErrors (functions : Array Function) (source : String) :
    (∃ program, compileAfter functions source = .ok program ∧ scanErrors source = []) ∨
      ∃ errors, compileAfter functions source = .error errors ∧
        errors.filterMap (·.scanError?) = scanErrors source := by
  obtain ⟨hreports, hread⟩ := complete_reports functions source
  have hscanned := hreports.scanned
  rw [hread, List.append_nil] at hscanned
  rw [compileAfter, Builder.finish]
  by_cases hempty : (Builder.complete functions source).errors.isEmpty
  · rw [if_pos hempty]
    rw [Array.isEmpty_iff.1 hempty] at hscanned
    exact .inl ⟨_, rfl, hscanned.symm⟩
  · rw [if_neg hempty]
    exact .inr ⟨_, rfl, hscanned⟩

/-- **Every complaint has its place in the source**, and shows its line. -/
theorem placed_of_mem_errors {functions : Array Function} {source : String}
    {errors : List CompileError} {e : CompileError}
    (h : compileAfter functions source = .error errors) (he : e ∈ errors) : e.Placed source := by
  obtain ⟨hreports, -⟩ := complete_reports functions source
  rw [compileAfter, Builder.finish] at h
  split at h
  · cases h
  · cases h
    exact hreports.placed e (Array.mem_toList_iff.1 he)

/-- **A complaint shows the line that it is about**, unless a carriage return stands for itself in
front of the place or at the end of its line: it counts as a line end, but does not divide the lines
that are shown. -/
theorem compileAfter_excerpt {functions : Array Function} {source : String}
    {errors : List CompileError} {e : CompileError}
    (h : compileAfter functions source = .error errors) (he : e ∈ errors) :
    (∃ before after, DividedAt source e.start before after) ∧
      ∀ before after, DividedAt source e.start before after →
        e.line = lineBehind before ∧
        ("\r" ∉ before → (after.dropWhile (!Text.Cluster.isNewline ·)).head? ≠ some "\r" →
          e.excerpt = Text.trim (String.join (lineAround before after))) := by
  obtain ⟨⟨before, after, hdivided, hline⟩, hexcerpt⟩ := placed_of_mem_errors h he
  refine ⟨⟨before, after, hdivided⟩, fun before' after' hdivided' => ?_⟩
  obtain rfl := hdivided'.unique hdivided
  refine ⟨hline, fun hbefore hafter => ?_⟩
  rw [hexcerpt, hline]
  exact Text.lineAt_eq hdivided'.split hbefore hafter

/-- A source about which something is complained does not compile. -/
theorem compileAfter_of_errors {functions : Array Function} {source : String} {e : CompileError}
    {errors : List CompileError}
    (h : (Builder.complete functions source).errors.toList = e :: errors) :
    compileAfter functions source = .error (e :: errors) := by
  have hempty : (Builder.complete functions source).errors.isEmpty = false := by
    rw [← Array.isEmpty_toList, h, List.isEmpty_cons]
  rw [compileAfter, Builder.finish, hempty, if_neg Bool.false_ne_true, h]

/-- A missing operand on the third line, with line ends of two kinds in front of it. -/
def missingOperand : String :=
  "\"a\nb\";\r\n 1 + ) ; // c\n"

/-- Behind a line end of each kind, the missing operand is reported with its line. -/
theorem compileAfter_excerpt_missingOperand :
    compileAfter #[] missingOperand =
        .error [⟨.expectedExpression, 3, some ⟨.rightParen, ")", 13, 3⟩, "1 + ) ; // c"⟩] ∧
      DividedAt missingOperand 13
        ["\"", "a", "\n", "b", "\"", ";", "\r\n", " ", "1", " ", "+", " "]
        [")", " ", ";", " ", "/", "/", " ", "c", "\n"] ∧
      "1 + ) ; // c" = Text.trim (String.join (lineAround
        ["\"", "a", "\n", "b", "\"", ";", "\r\n", " ", "1", " ", "+", " "]
        [")", " ", ";", " ", "/", "/", " ", "c", "\n"])) := by
  have hdivided : DividedAt missingOperand 13
      ["\"", "a", "\n", "b", "\"", ";", "\r\n", " ", "1", " ", "+", " "]
      [")", " ", ";", " ", "/", "/", " ", "c", "\n"] :=
    ⟨by decide +kernel, by decide +kernel⟩
  have hcompile : compileAfter #[] missingOperand =
      .error [⟨.expectedExpression, 3, some ⟨.rightParen, ")", 13, 3⟩, "1 + ) ; // c"⟩] :=
    compileAfter_of_errors (by decide +kernel)
  have hexcerpt := (compileAfter_excerpt hcompile List.mem_cons_self).2 _ _ hdivided
  exact ⟨hcompile, hdivided, hexcerpt.2 (by decide) (by decide +kernel)⟩

/-- Behind a carriage return that stands for itself the wrong line is shown. -/
theorem excerpt_ne_of_carriageReturn :
    ∃ e, compile "\r)" = .error [e] ∧ e.start = 1 ∧ DividedAt "\r)" 1 ["\r"] [")"] ∧
      e.line = 2 ∧ e.excerpt ≠ Text.trim (String.join (lineAround ["\r"] [")"])) :=
  ⟨⟨.expectedExpression, 2, some ⟨.rightParen, ")", 1, 2⟩, ""⟩,
    compileAfter_of_errors (by decide +kernel), rfl, ⟨by decide +kernel, by decide +kernel⟩, rfl,
    by decide +kernel⟩

end Program

end ScriptVM
