/-
# The marks that a tree leaves

Following the code of a syntax tree (`Decl.build`), each part is a stretch: an expression appends no
closures and leaves the locals (`Expr.straight`); a function appends one closure, which captures
just the locals that became marked while its body was read (`Passage.of_routine`).
-/
import ScriptVM.Proofs.Program.Marking
import ScriptVM.Proofs.Syntax.Legality
import ScriptVM.Proofs.Syntax.Translation

namespace ScriptVM

open Build

/-! ## Single instructions -/

namespace Passage

variable {b : Builder}

/-- An instruction without operands is a passage. -/
theorem emit (h : Tidy b) {op : Opcode} (hop : op ≠ .closure) (hlength : op.operandLength = 0)
    (line : Nat) : Passage b [] [⟨op, [], line⟩] (b.emit op line) := by
  refine .withChunk h (.addOpcode _ op line) (List.prefix_refl _) h.context.constants ?_ ?_
  · intro i hi
    rw [List.mem_singleton.1 hi, Instruction.Formed, if_neg hop]
    exact hlength.symm
  · intro i hi
    rw [List.mem_singleton.1 hi]
    exact hop

/-- An instruction with one operand is a passage. -/
theorem emitWith (h : Tidy b) {op : Opcode} (hop : op ≠ .closure) (hlength : op.operandLength = 1)
    (x : UInt8) (line : Nat) : Passage b [] [⟨op, [x], line⟩] (b.emitWith op x line) := by
  refine .withChunk h (.addInstruction _ op x line) (List.prefix_refl _) h.context.constants ?_ ?_
  · intro i hi
    rw [List.mem_singleton.1 hi, Instruction.Formed, if_neg hop]
    exact hlength.symm
  · intro i hi
    rw [List.mem_singleton.1 hi]
    exact hop

/-- An instruction with two operands is a passage. -/
theorem emitWith₂ (h : Tidy b) {op : Opcode} (hop : op ≠ .closure) (hlength : op.operandLength = 2)
    (x y : UInt8) (line : Nat) :
    Passage b [] [⟨op, [x, y], line⟩] ((b.emitWith op x line).emitByte y line) := by
  have happends := Chunk.Appends.addInstruction b.chunk op x line
  refine .withChunk h (Chunk.Appends.addByte (a := []) happends y) (List.prefix_refl _)
    h.context.constants ?_ ?_
  · intro i hi
    rw [List.mem_singleton.1 hi, Instruction.Formed, if_neg hop]
    exact hlength.symm
  · intro i hi
    rw [List.mem_singleton.1 hi]
    exact hop

/-- A jump is a passage. -/
theorem emitJump (h : Tidy b) {op : Opcode} (hop : op ≠ .closure) (hlength : op.operandLength = 2)
    (line : Nat) : Passage b [] [⟨op, [0xFF, 0xFF], line⟩] (b.emitJump op line) := by
  refine .withChunk h (.addJump _ op line) (List.prefix_refl _) h.context.constants ?_ ?_
  · intro i hi
    rw [List.mem_singleton.1 hi, Instruction.Formed, if_neg hop]
    exact hlength.symm
  · intro i hi
    rw [List.mem_singleton.1 hi]
    exact hop

theorem pop (h : Tidy b) (line : Nat) : Passage b [] [⟨.pop, [], line⟩] (b.emit .pop line) :=
  emit h (by simp) rfl line

theorem jumpIfFalse (h : Tidy b) (line : Nat) :
    Passage b [] [⟨.jumpIfFalse, [0xFF, 0xFF], line⟩] (b.emitJump .jumpIfFalse line) :=
  emitJump h (by simp) rfl line

theorem jump (h : Tidy b) (line : Nat) :
    Passage b [] [⟨.jump, [0xFF, 0xFF], line⟩] (b.emitJump .jump line) :=
  emitJump h (by simp) rfl line

/-- A loop is a passage. -/
theorem addLoop (h : Tidy b) {start line : Nat} {chunk : Chunk}
    (hloop : b.chunk.addLoop start line = .ok chunk) :
    ∃ i : Instruction, i.op ≠ .closure ∧ Passage b [] [i] (b.withChunk chunk) := by
  obtain ⟨-, -, happends, hconstants⟩ := Chunk.Appends.addLoop hloop
  refine ⟨_, ?_, .withChunk h happends (hconstants ▸ List.prefix_refl _)
    (hconstants ▸ h.context.constants) ?_ ?_⟩
  · simp
  · intro i hi
    rw [List.mem_singleton.1 hi]
    rfl
  · intro i hi
    rw [List.mem_singleton.1 hi]
    simp

/-- Adding a constant appends nothing. -/
theorem constant (h : Tidy b) {value : Value} {index : UInt8} {chunk : Chunk}
    (hadd : b.chunk.addConstant value = (some index, chunk)) :
      Passage b [] [] (b.withChunk chunk) := by
  obtain ⟨hcode, hprefix⟩ := Chunk.Appends.addConstant hadd
  rcases Chunk.addConstant_some_cases hadd with ⟨_, -, -, -, rfl⟩ | ⟨hroom, -, rfl⟩
  · exact .refl h
  · refine .withChunk h hcode hprefix ?_ (by simp) Code.open_nil
    rw [Array.size_push]
    exact hroom

end Passage

/-! ## Steps without closures -/

/-- A step of which every clean run is a stretch without closures and declarations. -/
structure Straight {α : Type} (step : Build α) : Prop where
  /-- It keeps all complaints. -/
  cumulative : Cumulative step
  /-- What a clean run does. -/
  runs : ∀ {b b' : Builder} {a : α}, Clean step b a b' → Tidy b →
    ∃ code, Passage b [] code b' ∧ code.Open

namespace Straight

variable {α β : Type}

/-- One step after another. -/
theorem bind {x : Build α} {f : α → Build β} (hx : Straight x) (hf : ∀ a, Straight (f a)) :
    Straight (x >>= f) where
  cumulative :=
    have := hx.cumulative
    have := fun a => (hf a).cumulative
    inferInstance
  runs := by
    intro b b' c h hb
    obtain ⟨a, b₁, h₁, h₂⟩ := h.bind_of_cumulative fun a => (hf a).cumulative
    obtain ⟨c₁, hs₁, ho₁⟩ := hx.runs h₁ hb
    obtain ⟨c₂, hs₂, ho₂⟩ := (hf a).runs h₂ hs₁.tidy
    exact ⟨c₁ ++ c₂, hs₁.append hs₂, ho₁.append ho₂⟩

/-- One step after another that depends on what the first one found. -/
theorem bind_of_clean {x : Build α} {f : α → Build β} [∀ a, Cumulative (f a)] (hx : Straight x)
    (hf : ∀ {b b₁ : Builder} {a : α}, Clean x b a b₁ → Straight (f a)) : Straight (x >>= f) where
  cumulative :=
    have := hx.cumulative
    inferInstance
  runs := by
    intro b b' c h hb
    obtain ⟨a, b₁, h₁, h₂⟩ := h.bind
    obtain ⟨c₁, hs₁, ho₁⟩ := hx.runs h₁ hb
    obtain ⟨c₂, hs₂, ho₂⟩ := (hf h₁).runs h₂ hs₁.tidy
    exact ⟨c₁ ++ c₂, hs₁.append hs₂, ho₁.append ho₂⟩

/-- A step that appends one known piece of code. -/
theorem of_runs {step : Build α} [Cumulative step]
    (h : ∀ {b b' : Builder} {a : α}, Clean step b a b' → Tidy b →
      ∃ code, Passage b [] code b' ∧ code.Open) : Straight step :=
  ⟨inferInstance, h⟩

/-- A step that appends nothing. -/
theorem of_silent {step : Build α} [Cumulative step]
    (h : ∀ {b b' : Builder} {a : α}, Clean step b a b' → Tidy b → Passage b [] [] b') :
    Straight step :=
  .of_runs fun hrun hb => ⟨[], h hrun hb, Code.open_nil⟩

/-- A step that never succeeds. -/
theorem of_not_clean {step : Build α} [Cumulative step]
    (h : ∀ {b b' : Builder} {a : α}, ¬ Clean step b a b') : Straight step :=
  .of_runs fun hrun => absurd hrun h

/-- Doing nothing is straight. -/
theorem pure (a : α) : Straight (Pure.pure a : Build α) := by
  apply of_silent
  intro b b' a h hb
  obtain ⟨-, rfl⟩ := h.of_pure
  exact .refl hb

/-- Looking at the builder is straight. -/
theorem get : Straight (MonadState.get : Build Builder) := by
  apply of_silent
  intro b b' c h hb
  obtain ⟨-, rfl⟩ := h.of_get
  exact .refl hb

theorem fail (token : Token) (kind : ErrorKind) : Straight (Build.fail token kind : Build α) :=
  of_not_clean Clean.not_fail

/-- Taking a token is straight. -/
theorem advance : Straight Build.advance := by
  apply of_silent
  intro b b' t h hb
  obtain ⟨-, rfl⟩ := h.of_advance
  exact .take hb

theorem pass : Straight Build.pass := by
  unfold Build.pass
  exact advance.bind fun _ => pure _

theorem previousLine : Straight Build.previousLine := by
  unfold Build.previousLine
  exact get.bind fun _ => pure _

/-- Emitting an instruction without operands is straight. -/
theorem emitAt {op : Opcode} (hop : op ≠ .closure) (hlength : op.operandLength = 0) (line : Nat) :
    Straight (Build.emitAt op line) := by
  apply of_runs
  intro b b' u h hb
  obtain rfl := h.of_emitAt
  exact ⟨_, .emit hb hop hlength line, by simpa [Code.Open] using hop⟩

theorem emit {op : Opcode} (hop : op ≠ .closure) (hlength : op.operandLength = 0) :
    Straight (Build.emit op) := by
  unfold Build.emit
  exact previousLine.bind fun line => emitAt hop hlength line

/-- Emitting an instruction with an operand is straight. -/
theorem emitWithAt {op : Opcode} (hop : op ≠ .closure) (hlength : op.operandLength = 1) (x : UInt8)
    (line : Nat) : Straight (Build.emitWithAt op x line) := by
  apply of_runs
  intro b b' u h hb
  obtain rfl := h.of_emitWithAt
  exact ⟨_, .emitWith hb hop hlength x line, by simpa [Code.Open] using hop⟩

/-- An instruction with two operand bytes, appended in two steps. -/
theorem emitWith₂ {op : Opcode} (hop : op ≠ .closure) (hlength : op.operandLength = 2) (x y : UInt8)
    (line : Nat) :
    Straight (Build.emitWithAt op x line >>= fun _ => Build.emitByteAt y line) := by
  apply of_runs
  intro b b' u h hb
  obtain ⟨_, b₁, hemit, hbyte⟩ := h.bind
  obtain rfl := hemit.of_emitWithAt
  obtain rfl := hbyte.of_emitByteAt
  exact ⟨_, .emitWith₂ hb hop hlength x y line, by simpa [Code.Open] using hop⟩

/-- Finding the index of a constant is straight. -/
theorem constantAt (token : Token) (value : Value) : Straight (Build.constantAt token value) := by
  apply of_silent
  intro b b' i h hb
  obtain ⟨chunk, hadd, rfl⟩ := h.of_constantAt
  exact .constant hb hadd

theorem constant (value : Value) : Straight (Build.constant value) := by
  unfold Build.constant
  exact get.bind fun _ => constantAt _ value

theorem nameConstant (name : Token) : Straight (Build.nameConstant name) :=
  constantAt name _

/-- Looking a name up appends nothing; the functions around may have more locals marked. -/
theorem resolve (token : Token) : Straight (Build.resolve token) := by
  apply of_silent
  intro b b' access h hb
  rcases h.of_resolve with ⟨slot, -, -, rfl⟩ | ⟨hlocal, index, context, enclosing, hfound, -, rfl⟩ |
    ⟨hlocal, index, context, enclosing, chunk, hfound, hadd, -, rfl⟩
  · exact .refl hb
  · have hnone := FunctionContext.noLocal_of_findLocal? (FunctionContext.resolveLocal_none hlocal)
    obtain ⟨haround, hgrows⟩ := around_resolveCapture hb.orderly hb.settled hfound
    obtain ⟨-, hsettled⟩ := resolveCapture_spec token.lexeme hb.orderly hnone
    rw [hfound] at hsettled
    have hsame : context.function = b.context.function ∧ context.depth = b.context.depth ∧
        context.locals = b.context.locals ∧
        b.context.captures.toList <+: context.captures.toList := by
      rcases hgrows with rfl | ⟨c, rfl⟩
      · exact ⟨rfl, rfl, rfl, List.prefix_refl _⟩
      · exact ⟨rfl, rfl, rfl, by simp⟩
    obtain ⟨hfunction, hdepth, hlocals, hcaptures⟩ := hsame
    exact {
      tidy := ⟨hsettled.orderly, by
        intro c hc l hl
        obtain ⟨c₀, hc₀, hraised⟩ : ∃ c₀ ∈ b.contexts, c₀.Raised c :=
          exists_mem_of_forall₂ (List.Forall₂.flip hsettled.raised) hc
        obtain ⟨l₀, hl₀, hl⟩ := hraised.locals.exists_of_mem hl
        rw [hl.depth, hraised.depth]
        exact hb.depths c₀ hc₀ l₀ hl₀, haround.settled⟩
      functions := List.prefix_refl _
      captures := hcaptures
      around := haround
      appends := by
        show b.context.function.chunk.Appends context.function.chunk []
        rw [hfunction]
        exact .refl _
      formed := by simp
      constants := by
        show b.context.function.chunk.constants.toList <+: context.function.chunk.constants.toList
        exact hfunction ▸ List.prefix_refl _
      depth := hdepth
      classes := rfl
      locals := by
        show context.locals = _
        rw [hlocals]
        exact (markSlots_false _).symm }
  · obtain ⟨rfl, rfl, -⟩ := resolveCapture_none hfound
    exact .constant hb hadd

/-- The instructions for a variable are no closures, and have one operand. -/
theorem getOp_of_resolve {token : Token} {access : Access} {b b' : Builder}
    (h : Clean (Build.resolve token) b access b') :
    access.getOp ≠ .closure ∧ access.getOp.operandLength = 1 ∧ access.setOp ≠ .closure ∧
      access.setOp.operandLength = 1 := by
  rcases h.of_resolve with ⟨slot, -, rfl, -⟩ | ⟨-, index, context, enclosing, -, rfl, -⟩ |
    ⟨-, index, context, enclosing, chunk, -, -, rfl, -⟩ <;>
    exact ⟨by simp, rfl, by simp, rfl⟩

/-- Reading a variable is straight. -/
theorem readVariable (token : Token) : Straight (Build.readVariable token) := by
  unfold Build.readVariable
  refine (resolve token).bind_of_clean fun h => ?_
  obtain ⟨hop, hlength, -, -⟩ := getOp_of_resolve h
  exact emitWithAt hop hlength _ _

/-- Complaining about a token is straight. -/
theorem refuse (token : Token) (kind : ErrorKind) (wrong : Bool) :
    Straight (Build.refuse token kind wrong) := by
  unfold Build.refuse
  split
  · exact fail token kind
  · exact pure ()

theorem limit (excess : ErrorKind) (count : Nat) : Straight (Build.limit excess count) := by
  unfold Build.limit
  exact get.bind fun _ => refuse _ excess _

/-- Dividing the cases by a token is straight. -/
theorem divide {γ : Type} (rest : List γ) : Straight (Build.divide rest) := by
  unfold Build.divide
  split
  · exact pure ()
  · exact pass

/-- A literal is straight. -/
theorem literal (token : Token) : Straight (Build.literal token) := by
  unfold Build.literal
  split
  · unfold numberLiteral
    dsimp only
    split
    · exact (constant _).bind fun _ => emitWithAt (by simp) rfl _ _
    · exact fail token _
  · unfold stringLiteral
    exact (constant _).bind fun _ => emitWithAt (by simp) rfl _ _
  · exact emitAt (by simp) rfl _
  · exact emitAt (by simp) rfl _
  · exact emitAt (by simp) rfl _

/-- Asking for a superclass is straight. -/
theorem requireSuperclass (token : Token) : Straight (Build.requireSuperclass token) := by
  unfold Build.requireSuperclass
  refine get.bind fun b => ?_
  split
  · exact fail token _
  · split
    · exact fail token _
    · exact pure _

/-- Reading `self` is straight. -/
theorem selfAccess (token : Token) : Straight (Build.selfAccess token) := by
  unfold Build.selfAccess
  refine get.bind fun b => ?_
  split
  · exact (fail token _).bind fun _ => readVariable token
  · exact readVariable token

/-- Naming an inherited method is straight. -/
theorem inheritedName (keyword name : Token) : Straight (Build.inheritedName keyword name) := by
  unfold Build.inheritedName
  refine pass.bind fun _ => (requireSuperclass keyword).bind fun _ => ?_
  refine pass.bind fun _ => pass.bind fun _ => (nameConstant name).bind fun index => ?_
  exact (readVariable _).bind fun _ => pure index

theorem propertyName (name : Token) : Straight (Build.propertyName name) := by
  unfold Build.propertyName
  exact pass.bind fun _ => pass.bind fun _ => nameConstant name

/-- Returning is straight. -/
theorem emitReturn : Straight Build.emitReturn := by
  unfold Build.emitReturn
  refine previousLine.bind fun line => get.bind fun b => ?_
  split
  · exact (emitWithAt (by simp) rfl 0 line).bind fun _ => emitAt (by simp) rfl line
  · exact (emitAt (by simp) rfl line).bind fun _ => emitAt (by simp) rfl line

/-- Instructions without operands in a row. -/
theorem emitAll {ops : List Opcode} (h : ∀ op ∈ ops, op ≠ .closure ∧ op.operandLength = 0)
    (line : Nat) : Straight (ops.forM fun op => Build.emitAt op line) := by
  induction ops with
  | nil => exact pure _
  | cons op rest ih =>
    obtain ⟨hop, hlength⟩ := h op List.mem_cons_self
    exact (emitAt hop hlength line).bind fun _ => ih fun o ho => h o (List.mem_cons_of_mem _ ho)

/-- Steps that are passed over if the value on top counts as false. -/
theorem skipping {x : Build Unit} (hx : Straight x) (line : Nat) :
    Straight (do
      let skip ← Build.emitJump .jumpIfFalse line
      Build.emitAt .pop line
      x
      patchJump skip) := by
  have := hx.cumulative
  apply of_runs
  intro b b' u h hb
  obtain ⟨skip, b₁, hjump, h⟩ := h.bind
  obtain ⟨rfl, rfl⟩ := hjump.of_emitJump
  obtain ⟨_, b₂, hpop, h⟩ := h.bind
  obtain ⟨_, b₃, hrun, hpatch⟩ := h.bind
  obtain ⟨chunk, hpatched, rfl⟩ := hpatch.of_patchJump
  have hs₁ := Passage.jumpIfFalse hb line
  obtain rfl := hpop.of_emitAt
  have hs₂ := Passage.pop hs₁.tidy line
  obtain ⟨c₃, hs₃, ho₃⟩ := hx.runs hrun hs₂.tidy
  have hs := hs₁.append (hs₂.append hs₃)
  exact ⟨_, Passage.patch (a := []) hs (by simp) hpatched, .cons (by simp) (.cons (by simp) ho₃)⟩

/-- Steps that are passed over unless the value on top counts as false. -/
theorem avoiding {x : Build Unit} (hx : Straight x) (line : Nat) :
    Straight (do
      let go ← Build.emitJump .jumpIfFalse line
      let skip ← Build.emitJump .jump line
      patchJump go
      Build.emitAt .pop line
      x
      patchJump skip) := by
  have := hx.cumulative
  apply of_runs
  intro b b' u h hb
  obtain ⟨go, b₁, hgo, h⟩ := h.bind
  obtain ⟨rfl, rfl⟩ := hgo.of_emitJump
  obtain ⟨skip, b₂, hskip, h⟩ := h.bind
  obtain ⟨rfl, rfl⟩ := hskip.of_emitJump
  obtain ⟨_, b₃, hland, h⟩ := h.bind
  obtain ⟨chunk, hlanded, rfl⟩ := hland.of_patchJump
  obtain ⟨_, b₄, hpop, h⟩ := h.bind
  obtain rfl := hpop.of_emitAt
  obtain ⟨_, b₅, hrun, hpatch⟩ := h.bind
  obtain ⟨chunk', hpatched, rfl⟩ := hpatch.of_patchJump
  have hs₁ := Passage.jumpIfFalse hb line
  have hsize := hs₁.appends.size_eq
  have hs₂ := Passage.patch (a := []) (hs₁.append (Passage.jump hs₁.tidy line)) (by simp) hlanded
  have hs₃ := Passage.pop hs₂.tidy line
  obtain ⟨c₄, hs₄, ho₄⟩ := hx.runs hrun hs₃.tidy
  have hs := hs₂.append (hs₃.append hs₄)
  rw [hsize] at hpatched
  refine ⟨_, Passage.patch (a := [_]) hs (by simp) hpatched, ?_⟩
  exact .cons (by simp) (.cons (by simp) (.cons (by simp) ho₄))

end Straight

/-! ## Expressions -/

theorem signOps_bare (kind : TokenKind) :
    ∀ op ∈ signOps kind, op ≠ .closure ∧ op.operandLength = 0 := by
  cases kind <;> decide

mutual

/-- **An expression makes no closures and declares nothing.** -/
theorem Expr.straight (e : Expr) : Straight e.build := by
  -- One case for each rule, each the steps of its `build` in order: tokens that are passed, the
  -- operands, then instructions that are neither closures nor definitions.
  cases e with
  | literal token =>
    unfold Expr.build
    exact Straight.pass.bind fun _ => .literal token
  | ident token =>
    unfold Expr.build
    exact Straight.pass.bind fun _ => .readVariable token
  | this keyword =>
    unfold Expr.build
    exact Straight.pass.bind fun _ => .selfAccess keyword
  | inherited keyword name =>
    unfold Expr.build
    refine (Straight.inheritedName keyword name).bind fun index => ?_
    exact (Straight.readVariable _).bind fun _ => .emitWithAt (by simp) rfl index _
  | inheritedCall keyword name arguments =>
    unfold Expr.build
    refine (Straight.inheritedName keyword name).bind fun index => Straight.pass.bind fun _ => ?_
    refine (Expr.straightList _ 0 arguments).bind fun _ => Straight.pass.bind fun _ => ?_
    exact (Straight.readVariable _).bind fun _ => .emitWith₂ (by simp) rfl index _ _
  | grouping inner =>
    unfold Expr.build
    exact Straight.pass.bind fun _ => inner.straight.bind fun _ => .pass
  | array bracket elements =>
    unfold Expr.build
    refine Straight.pass.bind fun _ => (Expr.straightList _ 0 elements).bind fun _ => ?_
    exact Straight.pass.bind fun _ => .emitWithAt (by simp) rfl _ _
  | unary sign operand =>
    unfold Expr.build
    refine Straight.pass.bind fun _ => operand.straight.bind fun _ => ?_
    -- Only the two signs of the grammar have an instruction of their own.
    rw [signOp]
    split
    · exact .emitAt (by simp) rfl _
    · exact .emitAt (by simp) rfl _
  | binary left sign right =>
    unfold Expr.build
    refine left.straight.bind fun _ => Straight.pass.bind fun _ => right.straight.bind fun _ => ?_
    exact .emitAll (signOps_bare sign.kind) _
  | conjunction left sign right =>
    unfold Expr.build
    exact left.straight.bind fun _ => Straight.pass.bind fun _ => right.straight.skipping _
  | disjunction left sign right =>
    unfold Expr.build
    exact left.straight.bind fun _ => Straight.pass.bind fun _ => right.straight.avoiding _
  | call callee paren arguments =>
    unfold Expr.build
    refine callee.straight.bind fun _ => Straight.pass.bind fun _ => ?_
    refine (Expr.straightList _ 0 arguments).bind fun _ => Straight.pass.bind fun _ => ?_
    exact .emitWithAt (by simp) rfl _ _
  | subscript callee bracket index =>
    unfold Expr.build
    refine callee.straight.bind fun _ => Straight.pass.bind fun _ => index.straight.bind fun _ => ?_
    exact Straight.pass.bind fun _ => .emitWithAt (by simp) rfl _ _
  | property receiver name =>
    unfold Expr.build
    refine receiver.straight.bind fun _ => (Straight.propertyName name).bind fun index => ?_
    exact .emitWithAt (by simp) rfl index _
  | methodCall receiver name arguments =>
    unfold Expr.build
    refine receiver.straight.bind fun _ => (Straight.propertyName name).bind fun index => ?_
    refine Straight.pass.bind fun _ => (Expr.straightList _ 0 arguments).bind fun _ => ?_
    exact Straight.pass.bind fun _ => .emitWith₂ (by simp) rfl index _ _
  | assign name value =>
    unfold Expr.build
    -- What is emitted depends on where the name was found, so the step is bound with what is known
    -- of a resolved name.
    refine Straight.pass.bind fun _ => (Straight.resolve name).bind_of_clean fun h => ?_
    obtain ⟨-, -, hop, hlength⟩ := Straight.getOp_of_resolve h
    exact Straight.pass.bind fun _ => value.straight.bind fun _ => .emitWithAt hop hlength _ _
  | setProperty receiver name value =>
    unfold Expr.build
    refine receiver.straight.bind fun _ => (Straight.propertyName name).bind fun index => ?_
    refine Straight.pass.bind fun _ => value.straight.bind fun _ => ?_
    exact .emitWithAt (by simp) rfl index _

/-- A list of expressions makes no closures and declares nothing. -/
theorem Expr.straightList (excess : ErrorKind) (count : Nat) (es : List Expr) :
    Straight (Expr.buildList excess count es) := by
  cases es with
  | nil =>
    unfold Expr.buildList
    exact .pure ()
  | cons e es =>
    unfold Expr.buildList
    refine e.straight.bind fun _ => (Straight.limit excess count).bind fun _ => ?_
    exact (Straight.divide es).bind fun _ => Expr.straightList excess (count + 1) es

end


/-! ## Variables -/

/-- The local that a new variable is, unless it is a global one. -/
def freshLocal (depth : Nat) (initialized : Bool) : Option String → List Local
  | none => []
  | some name => if depth = 0 then [] else [⟨name, depth, initialized, false⟩]

theorem freshLocal_zero (initialized : Bool) (name? : Option String) :
    freshLocal 0 initialized name? = [] := by
  cases name? <;> rfl

theorem freshLocal_some {depth : Nat} (h : depth ≠ 0) (initialized : Bool) (name : String) :
    freshLocal depth initialized (some name) = [⟨name, depth, initialized, false⟩] :=
  if_neg h

namespace Passage

variable {b b₁ b₂ : Builder} {new : List Local} {code : Code} {name : String}

/-- A new local of the current block. -/
theorem declare (h : Tidy b) (hroom : b.context.locals.length < FunctionContext.localLimit)
    (name : String) :
    Passage b [⟨name, b.context.depth, false, false⟩] []
      (b.withLocals (⟨name, b.context.depth, false, false⟩ :: b.context.locals)) := by
  have hcarries : Carries b
      (b.withLocals (⟨name, b.context.depth, false, false⟩ :: b.context.locals)) := by
    refine Carries.withLocals h hroom ?_
    intro l hl
    rcases List.mem_cons.1 hl with rfl | hl
    · exact Nat.le_refl _
    · exact h.depths b.context List.mem_cons_self l hl
  exact { hcarries with
    appends := .refl _
    formed := by simp
    constants := List.prefix_refl _
    depth := rfl
    classes := rfl
    locals := (markSlots_false _).symm }

/-- Declaring a variable adds it to the locals, if it is in a scope. -/
theorem of_declareVariable {token : Token} {u : Unit} (h : Clean (declareVariable token) b u b₁)
    (hb : Tidy b) : Passage b (freshLocal b.context.depth false (some token.lexeme)) [] b₁ := by
  rcases h.of_declareVariable with ⟨hdepth, rfl⟩ | ⟨hdepth, -, hroom, rfl⟩
  · rw [hdepth, freshLocal_zero]
    exact .refl hb
  · rw [freshLocal_some hdepth]
    exact .declare hb hroom _

/-- The innermost local has its value. -/
theorem markInitialized {initialized : Bool} {u : Unit}
    (h : Passage b (freshLocal b.context.depth initialized (some name)) code b₁)
    (hmark : Clean Build.markInitialized b₁ u b₂) :
    Passage b (freshLocal b.context.depth true (some name)) code b₂ := by
  by_cases hdepth : b.context.depth = 0
  · rw [hdepth, freshLocal_zero] at h ⊢
    obtain rfl := hmark.of_markInitialized_zero (h.depth.trans hdepth)
    exact h
  · rw [freshLocal_some hdepth] at h ⊢
    have hlocals := h.locals
    rw [List.singleton_append, markSlots] at hlocals
    obtain rfl := hmark.of_markInitialized_cons (h.depth ▸ hdepth) hlocals
    have hdepths := h.tidy.depths b₁.context List.mem_cons_self
    have hlength := h.tidy.context.locals
    rw [hlocals] at hdepths hlength
    have hcarries : Carries b₁ (b₁.withLocals
        (⟨name, b.context.depth, true, code.takesSlot b.context.locals.length⟩ ::
          markSlots code.takesSlot b.context.locals)) := by
      refine .withLocals h.tidy hlength ?_
      intro l hl
      rcases List.mem_cons.1 hl with rfl | hl
      · exact Nat.le_of_eq h.depth.symm
      · exact hdepths l (List.mem_cons_of_mem _ hl)
    exact { h.toCarries.trans hcarries with
      appends := h.appends
      formed := h.formed
      constants := h.constants
      depth := h.depth
      classes := h.classes
      locals := rfl }

/-- A new variable gets its value: a global one by an instruction, a local one by its slot. -/
theorem define {index? : Option UInt8} {initialized : Bool} {u : Unit}
    (h : Passage b (freshLocal b.context.depth initialized (some name)) code b₁)
    (hindex : index? = none ↔ b.context.depth ≠ 0)
    (hdefine : Clean (defineVariable index?) b₁ u b₂) :
    ∃ code', Passage b (freshLocal b.context.depth true (some name)) code' b₂ := by
  cases index? with
  | none => exact ⟨code, h.markInitialized hdefine⟩
  | some index =>
    have hdepth : b.context.depth = 0 := by
      by_contra hne
      exact absurd (hindex.2 hne) (by simp)
    unfold defineVariable at hdefine
    rw [hdepth, freshLocal_zero] at h ⊢
    obtain ⟨line, b₃, hline, hemit⟩ := hdefine.bind
    obtain ⟨-, rfl⟩ := hline.of_previousLine
    obtain rfl := hemit.of_emitWithAt
    exact ⟨_, h.append (.emitWith h.tidy (by simp) rfl index line)⟩

end Passage

/-- The name of a new variable: a local one is declared, the name of a global one is a constant. -/
theorem Build.Clean.of_newName {name : Token} {index? : Option UInt8} {b b' : Builder}
    (h : Clean (newName name) b index? b') (hb : Tidy b) :
    Passage b (freshLocal b.context.depth false (some name.lexeme)) [] b' ∧
      (index? = none ↔ b.context.depth ≠ 0) := by
  unfold newName at h
  obtain ⟨_, _, hpass, h⟩ := h.bind
  obtain rfl := hpass.of_pass
  obtain ⟨_, b₁, hdeclare, h⟩ := h.bind
  have htake := Passage.take hb
  have hlocal : Passage b (freshLocal b.context.depth false (some name.lexeme)) [] b₁ :=
    htake.prepend Code.open_nil (Passage.of_declareVariable hdeclare htake.tidy)
  have hdepth : b₁.context.depth = b.context.depth := hlocal.depth
  replace h := h.bind_get
  rw [hdepth] at h
  split at h
  · next hpos =>
    obtain ⟨rfl, rfl⟩ := h.of_pure
    exact ⟨hlocal, by simp; omega⟩
  · next hzero =>
    obtain ⟨index, hconstant, rfl⟩ := h.map
    obtain ⟨chunk, hadd, rfl⟩ := hconstant.of_nameConstant
    exact ⟨hlocal.append (.constant hlocal.tidy hadd), by simp; omega⟩

/-! ## Functions -/

/-- A step inside a function of which every clean run leaves what is around it in order. -/
structure Bears (step : Build Unit) : Prop where
  /-- It keeps all complaints. -/
  cumulative : Cumulative step
  /-- What a clean run does. -/
  runs : ∀ {b b' : Builder} {u : Unit}, Clean step b u b' → Tidy b → b.context.depth ≠ 0 →
    Carries b b' ∧ b'.context.depth = b.context.depth ∧ b'.classes = b.classes

/-- A straight step leaves what is around it in order. -/
theorem Straight.bears {step : Build Unit} (h : Straight step) : Bears step where
  cumulative := h.cumulative
  runs := by
    intro b b' u hrun hb _
    obtain ⟨code, hpassage, -⟩ := h.runs hrun hb
    exact ⟨hpassage.toCarries, hpassage.depth, hpassage.classes⟩

/-- Steps one behind the other leave what is around them in order. -/
theorem Bears.bind {x : Build Unit} {f : Unit → Build Unit} (hx : Bears x) (hf : ∀ u, Bears (f u)) :
    Bears (x >>= f) where
  cumulative :=
    have := hx.cumulative
    have := fun a => (hf a).cumulative
    inferInstance
  runs := by
    intro b b' u h hb hdepth
    obtain ⟨v, b₁, h₁, h₂⟩ := h.bind_of_cumulative fun a => (hf a).cumulative
    obtain ⟨hc₁, hd₁, hk₁⟩ := hx.runs h₁ hb hdepth
    obtain ⟨hc₂, hd₂, hk₂⟩ := (hf v).runs h₂ hc₁.tidy (hd₁ ▸ hdepth)
    exact ⟨hc₁.trans hc₂, hd₂.trans hd₁, hk₂.trans hk₁⟩

/-- Counting a parameter changes nothing else. -/
theorem Passage.of_countParameter {b b' : Builder} {u : Unit} (h : Clean countParameter b u b')
    (hb : Tidy b) : Passage b [] [] b' := by
  unfold countParameter at h
  replace h := h.bind_get
  obtain ⟨_, b₁, hrefuse, hmodify⟩ := h.bind
  have hsame : b = b₁ := by
    unfold refuse at hrefuse
    split at hrefuse
    · exact absurd hrefuse Clean.not_fail
    · exact hrefuse.of_pure.2
  subst hsame
  obtain rfl := hmodify.of_modifyContext
  have hcontext := hb.context
  have hcarries : Carries b { b with context := { b.context with function :=
      { b.context.function with arity := b.context.function.arity + 1 } } } :=
    .withContext hb ⟨hcontext.locals, hcontext.captures, hcontext.constants, hcontext.nodup⟩
      (hb.depths b.context List.mem_cons_self) rfl
  exact { hcarries with
    appends := .refl _
    formed := by simp
    constants := List.prefix_refl _
    depth := rfl
    classes := rfl
    locals := (markSlots_false _).symm }

/-- Naming parameters leaves what is around the function in order. -/
theorem bears_parameterNames (names : List Token) : Bears (parameterNames names) := by
  induction names with
  | nil =>
    unfold parameterNames
    exact (Straight.pure ()).bears
  | cons name names ih =>
    refine ⟨inferInstance, ?_⟩
    intro b b' u h hb hdepth
    unfold parameterNames at h
    obtain ⟨_, b₁, hcount, h⟩ := h.bind
    obtain ⟨index?, b₂, hname, h⟩ := h.bind
    obtain ⟨_, b₃, hdefine, h⟩ := h.bind
    have hcounted := Passage.of_countParameter hcount hb
    obtain ⟨hnamed, hindex⟩ := hname.of_newName hcounted.tidy
    obtain ⟨code, hdefined⟩ := hnamed.define hindex hdefine
    have hrest : Bears (divide names >>= fun _ => parameterNames names) :=
      (Straight.divide names).bears.bind fun _ => ih
    have hdepth₃ : b₃.context.depth ≠ 0 := by
      rw [hdefined.depth, hcounted.depth]
      exact hdepth
    obtain ⟨hcarries, hsame, hclasses⟩ := hrest.runs h hdefined.tidy hdepth₃
    refine ⟨(hcounted.toCarries.trans hdefined.toCarries).trans hcarries, ?_, ?_⟩
    · rw [hsame, hdefined.depth, hcounted.depth]
    · rw [hclasses, hdefined.classes, hcounted.classes]

theorem bears_parameterList (names : List Token) : Bears (parameterList names) := by
  unfold parameterList
  exact Straight.pass.bears.bind fun _ => (bears_parameterNames names).bind fun _ =>
    Straight.pass.bears

/-- A function at its first step. -/
theorem Tidy.beginFunction {b : Builder} (h : Tidy b) (name : String) (kind : FunctionKind) :
    Tidy { b with context := .start name kind, enclosing := b.context :: b.enclosing } where
  orderly := by
    intro c hc
    rcases List.mem_cons.1 hc with rfl | hc
    · exact FunctionContext.orderly_start name kind
    · exact h.orderly c hc
  depths := by
    intro c hc
    rcases List.mem_cons.1 hc with rfl | hc
    · intro l hl
      rw [List.mem_singleton.1 hl]
      exact Nat.le_refl _
    · exact h.depths c hc
  settled := by
    refine .cons rfl rfl ?_ (List.prefix_refl _) h.settled
    exact (markSlots_false _).symm

/-- Locals are in order at any greater depth. -/
theorem Tidy.withDepth {b : Builder} (h : Tidy b) {depth : Nat} (hle : b.context.depth ≤ depth) :
    Tidy (b.withDepth depth) := by
  have hcontext := h.context
  refine h.withContext ⟨hcontext.locals, hcontext.captures, hcontext.constants,
    hcontext.nodup⟩ ?_ rfl
  intro l hl
  exact Nat.le_trans (h.depths b.context List.mem_cons_self l hl) hle

section

-- A function is a sequence of nine steps.
set_option synthInstance.maxSize 512

/-- The making of a closure of a finished function.  The locals that it captures are marked before,
while it was read. -/
theorem Passage.of_emitClosure {b b' : Builder} {finished : FunctionContext} {line : Nat} {u : Unit}
    {locals : List Local} (hb : Tidy b)
    (hlocals : b.context.locals = markSlots (takesSlot finished.captures) locals)
    (h : Clean (emitClosure finished line) b u b') :
    ∃ i : Instruction, Passage (b.withLocals locals) [] [i] b' := by
  unfold emitClosure at h
  obtain ⟨id, b₁, hkeep, h⟩ := h.bind
  obtain ⟨rfl, rfl⟩ := hkeep.of_keepFunction
  obtain ⟨index, b₂, hconstant, h⟩ := h.bind
  obtain ⟨chunk, hadd, rfl⟩ := hconstant.of_constant
  obtain ⟨_, b₃, hemit, h⟩ := h.bind
  obtain rfl := hemit.of_emitWithAt
  rw [forM_array_toList] at h
  obtain ⟨chunk', rfl, hconstants, hcode⟩ := captures_append h
    (Chunk.Appends.addInstruction _ .closure index line)
  have hkept := Passage.constant hb hadd
  obtain ⟨v, hv, hsame⟩ := Chunk.getElem?_of_addConstant hadd hb.context.constants
  obtain rfl : v = .functionRef ⟨b.functions.size⟩ :=
    hsame.elim id Value.eq_of_sameConstant_functionRef
  have hchunk : chunk'.constants = chunk.constants := hconstants
  have hsize : chunk'.constants.size ≤ Chunk.constantLimit :=
    hchunk ▸ hkept.tidy.context.constants
  have hcarries := Carries.withChunk hb hsize
  refine ⟨⟨.closure, index :: captureBytes finished.captures.toList, line⟩, ?_⟩
  exact {
    tidy := ⟨hcarries.tidy.orderly, hcarries.tidy.depths, hcarries.tidy.settled⟩
    functions := by
      show b.functions.toList <+: (b.functions.push finished.complete).toList
      simp
    captures := List.prefix_refl _
    around := hb.settled
    appends := by
      have happends : b.chunk.Appends chunk [] := hkept.appends
      exact happends.trans hcode
    formed := by
      intro i hi
      rw [List.mem_singleton.1 hi, Instruction.Formed, if_pos rfl]
      refine ⟨index, _, ⟨b.functions.size⟩, finished.complete, rfl, ?_, ?_, ?_⟩
      · show chunk'.constants[index.toNat]? = _
        rw [hchunk]
        exact hv
      · show (b.functions.push finished.complete)[b.functions.size]? = _
        simp
      · rw [length_captureBytes]
        rfl
    constants := by
      show b.chunk.constants.toList <+: chunk'.constants.toList
      rw [hchunk]
      exact hkept.constants
    depth := rfl
    classes := rfl
    locals := by
      show b.context.locals = _
      rw [hlocals]
      exact markSlots_congr fun i _ => (takesSlot_closure index finished.captures line i).symm }

/-- A function up to its body; the line that its closure belongs to. -/
def Build.routineStart (name : String) (kind : FunctionKind) (parameters : Build Unit) :
    Build Nat := do
  let line ← previousLine
  beginFunction name kind
  beginScope
  parameters
  pass
  return line

instance (name : String) (kind : FunctionKind) (parameters : Build Unit) [Cumulative parameters] :
    Cumulative (routineStart name kind parameters) := by
  unfold routineStart
  infer_instance

/-- A function is built between the start of its context and the instruction for its closure. -/
theorem Build.routine_eq (name : String) (kind : FunctionKind) (parameters body : Build Unit) :
    routine name kind parameters body = (do
      let line ← routineStart name kind parameters
      body
      pass
      emitClosure (← endFunction) line) := by
  simp only [routine, routineStart, bind_assoc, pure_bind]

/-- The builder where a function begins. -/
def Builder.inside (b : Builder) (name : String) (kind : FunctionKind) : Builder :=
  { b with context := .start name kind, enclosing := b.context :: b.enclosing }.withDepth 1

/-- A function up to its body leaves what is around it in order. -/
theorem Bears.of_routineStart {name : String} {kind : FunctionKind} {parameters : Build Unit}
    {b b' : Builder} {line : Nat} (hparameters : Bears parameters)
    (h : Clean (routineStart name kind parameters) b line b') (hb : Tidy b) :
    Carries (b.inside name kind) b' ∧ b'.context.depth ≠ 0 ∧ b'.classes = b.classes := by
  have := hparameters.cumulative
  unfold routineStart at h
  obtain ⟨line, _, hline, h⟩ := h.bind
  obtain ⟨-, rfl⟩ := hline.of_previousLine
  obtain ⟨_, _, hbegin, h⟩ := h.bind
  obtain rfl := hbegin.of_beginFunction
  obtain ⟨_, _, hscope, h⟩ := h.bind
  obtain rfl := hscope.of_beginScope
  have hstart : Tidy (b.inside name kind) :=
    (hb.beginFunction name kind).withDepth (Nat.le_add_right 0 1)
  obtain ⟨_, b₁, hrun, h⟩ := h.bind
  obtain ⟨hcarries, hdepth, hclasses⟩ := hparameters.runs hrun hstart (Nat.succ_ne_zero 0)
  obtain ⟨_, _, hpass, h⟩ := h.bind
  obtain rfl := hpass.of_pass
  obtain ⟨-, rfl⟩ := h.of_pure
  refine ⟨hcarries.trans (Passage.take hcarries.tidy).toCarries, ?_, hclasses⟩
  show b₁.context.depth ≠ 0
  rw [hdepth]
  exact Nat.succ_ne_zero 0

/-- **A function appends one closure**, which captures just the locals that became marked. -/
theorem Passage.of_routine {name : String} {kind : FunctionKind} {parameters body : Build Unit}
    {b b' : Builder} {u : Unit} (hparameters : Bears parameters) (hbody : Bears body)
    (h : Clean (routine name kind parameters body) b u b') (hb : Tidy b) :
    ∃ code, Passage b [] code b' := by
  have := hbody.cumulative
  rw [routine_eq] at h
  obtain ⟨line, b₁, hstart, h⟩ := h.bind
  obtain ⟨hc₁, hd₁, hk₁⟩ := hparameters.of_routineStart hstart hb
  obtain ⟨_, b₂, hrun, h⟩ := h.bind
  obtain ⟨hc₂, -, hk₂⟩ := hbody.runs hrun hc₁.tidy hd₁
  obtain ⟨_, _, hpass, h⟩ := h.bind
  obtain rfl := hpass.of_pass
  have ht₃ := Passage.take hc₂.tidy
  obtain ⟨finished, b₅, hend, hclosure⟩ := h.bind
  obtain ⟨b₆, hreturn, rfl, hback⟩ := hend.of_endFunction
  obtain ⟨_, hp₆, -⟩ := Straight.emitReturn.runs hreturn ht₃.tidy
  have hcarries := (hc₁.trans hc₂).trans (ht₃.toCarries.trans hp₆.toCarries)
  have hclasses : b₆.classes = b.classes := by
    rw [hp₆.classes, ht₃.classes, hk₂, hk₁]
  -- The function around has just the locals marked that the finished function captures.
  have haround : Around b₆.context.captures (b.context :: b.enclosing) b₆.enclosing :=
    hcarries.around
  generalize henclosing : b₆.enclosing = enclosing at haround
  cases haround with
  | @cons _ _ outer _ rest hfunction hdepth hlocals hcaptures hnext =>
    obtain rfl := hback outer rest henclosing
    have hcontexts : b₆.contexts = b₆.context :: outer :: rest := by
      rw [Builder.contexts, henclosing]
    have htidy : Tidy { b₆ with context := outer, enclosing := rest } := by
      refine ⟨?_, ?_, hnext.settled⟩
      · intro c hc
        exact hcarries.tidy.orderly c (hcontexts ▸ List.mem_cons_of_mem _ hc)
      · intro c hc
        exact hcarries.tidy.depths c (hcontexts ▸ List.mem_cons_of_mem _ hc)
    obtain ⟨i, hi⟩ := Passage.of_emitClosure htidy hlocals hclosure
    have hlength : b.context.locals.length ≤ FunctionContext.localLimit := hb.context.locals
    have hbackward : Passage b [] []
        ({ b₆ with context := outer, enclosing := rest }.withLocals b.context.locals) := {
      tidy := (Carries.withLocals htidy hlength fun l hl =>
        hdepth ▸ hb.depths b.context List.mem_cons_self l hl).tidy
      functions := hcarries.functions
      captures := hcaptures
      around := hnext
      appends := by
        show b.context.function.chunk.Appends outer.function.chunk []
        rw [hfunction]
        exact .refl _
      formed := by simp
      constants := by
        show b.context.function.chunk.constants.toList <+: outer.function.chunk.constants.toList
        exact hfunction ▸ List.prefix_refl _
      depth := hdepth
      classes := hclasses
      locals := (markSlots_false _).symm }
    exact ⟨_, hbackward.append hi⟩

end

end ScriptVM
