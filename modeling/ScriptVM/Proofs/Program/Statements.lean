/-
# The code of statements

The code of a statement leaves the stack as it found it, and a declaration leaves the slots of the
locals it declares (`Declares`).  Both work where the stack is exactly as high as there are locals.

Main statements: declarations in a row are one declaration of all their locals
(`Declares.append`), and a scope around one drops them again (`inScope_emits`).
-/
import ScriptVM.Proofs.Program.Expressions

namespace ScriptVM

/-! ## Declarations -/

/-- The slots of locals fit those of the locals as they have become. -/
theorem Shape.le_map_slot {locals locals' : List Local} (h : LocalsRaised locals locals') :
    Shape.Le (locals.map Local.slot) (locals'.map Local.slot) := by
  induction h with
  | nil => exact .nil
  | cons hl _ ih => exact .cons hl.slot_le ih

/-- A shape that has some locals in their slots has more of them if theirs stand on top. -/
theorem Suits.append {old : List Local} {S : Shape} (h : Suits true old S) (new : List Local) :
    Suits true (new ++ old) (new.map Local.slot ++ S) := by
  have hlength : S.length = old.length := h.length rfl
  refine ⟨?_, fun _ => by simp [hlength]⟩
  induction new with
  | nil => exact h.covers
  | cons l rest ih =>
    intro i l' hl' hinit
    rw [List.cons_append, slot?] at hl'
    split at hl'
    · next hi =>
      injection hl' with hl'
      subst hl'
      refine ⟨l.slot, ?_, Slot.Le.refl _⟩
      rw [List.map_cons, List.cons_append, slot?, if_pos]
      simpa [hlength] using hi
    · next hi =>
      obtain ⟨s, hs, hle⟩ := ih i l' hl' hinit
      refine ⟨s, ?_, hle⟩
      rw [List.map_cons, List.cons_append]
      exact slot?_append_of_some (X := [l.slot]) hs

/-- Locals that are captured are still divided into the new and the old ones. -/
theorem LocalsRaised.exists_append {new old locals : List Local}
    (h : LocalsRaised (new ++ old) locals) :
    ∃ new' old', locals = new' ++ old' ∧ LocalsRaised new new' ∧ LocalsRaised old old' :=
  ⟨_, _, (List.take_append_drop new.length locals).symm,
    by simpa using List.forall₂_take new.length h, by simpa using List.forall₂_drop new.length h⟩

/-- **What a clean declaration appends**: code that leaves the slots of the new locals above the old
ones. -/
structure Declares (bps : List Blueprint) (b : Builder) (bps' : List Blueprint) (b' : Builder)
    (new old : List Local) (code : Code) : Prop where
  /-- What it does to the builder. -/
  grown : Grown bps b bps' b' code
  /-- The new locals come first. -/
  locals : b'.context.locals = new ++ old
  /-- The old locals stay, though more of them may be captured. -/
  raised : LocalsRaised b.context.locals old
  /-- The new locals belong to the current block. -/
  depths : ∀ l ∈ new, l.depth = b.context.depth
  /-- None of them is named like a superclass. -/
  names : ∀ l ∈ new, l.name ≠ "super"
  /-- At the top level there are no locals. -/
  top : b.context.depth = 0 → new = []
  /-- What the code does. -/
  flow : ∀ S, Suits true old S →
    Flow (b'.env bps') S (.at []) code (some (.at (new.map Local.slot)))

namespace Declares

variable {bps bps₁ bps₂ : List Blueprint} {b b₁ b₂ : Builder}
  {new new₁ new₂ old old₁ old₂ : List Local}
  {code c₁ c₂ : Code}

/-- Code that leaves the stack as it was declares nothing. -/
theorem of_emission (h : Emission true bps b bps₁ b₁ (.at []) code (.at [])) :
    Declares bps b bps₁ b₁ [] b₁.context.locals code where
  grown := h.grown
  locals := rfl
  raised := h.locals
  depths := by simp
  names := by simp
  top _ := rfl
  flow := h.flow

/-- **One declaration after another.** -/
theorem append (h₁ : Declares bps b bps₁ b₁ new₁ old₁ c₁)
    (h₂ : Declares bps₁ b₁ bps₂ b₂ new₂ old₂ c₂) :
    ∃ new old, Declares bps b bps₂ b₂ new old (c₁ ++ c₂) := by
  have hraised := h₂.raised
  rw [h₁.locals] at hraised
  obtain ⟨new₁', old, rfl, hnew, hold⟩ := hraised.exists_append
  refine ⟨new₂ ++ new₁', old, h₁.grown.trans h₂.grown, ?_, h₁.raised.trans hold, ?_, ?_, ?_, ?_⟩
  · rw [h₂.locals, List.append_assoc]
  · intro l hl
    rcases List.mem_append.1 hl with hl | hl
    · rw [h₂.depths l hl, h₁.grown.depth]
    · obtain ⟨l', hl', hraise⟩ := hnew.exists_of_mem hl
      rw [hraise.depth, h₁.depths l' hl']
  · intro l hl
    rcases List.mem_append.1 hl with hl | hl
    · exact h₂.names l hl
    · obtain ⟨l', hl', hraise⟩ := hnew.exists_of_mem hl
      rw [hraise.name]
      exact h₁.names l' hl'
  · intro hdepth
    obtain rfl := h₁.top hdepth
    obtain rfl := List.forall₂_nil_left_iff.1 hnew
    rw [h₂.top (h₁.grown.depth.trans hdepth), List.append_nil]
  · intro S hS
    have hfirst := ((h₁.flow S (hS.of_raised hold)).mono (h₂.grown.env_le h₁.grown.sound)
      (Shape.Le.refl S)).weaken (r := .at (new₁'.map Local.slot)) ⟨Shape.le_map_slot hnew, .inl rfl⟩
    have hsecond := (h₂.flow (new₁'.map Local.slot ++ S) (hS.append new₁')).rebase
    rw [List.map_append]
    exact hfirst.append hsecond

end Declares

/-- A superclass stays in scope behind a declaration. -/
theorem Declares.scoped {bps bps₁ : List Blueprint} {b b₁ : Builder} {new old : List Local}
    {code : Code} (h : Declares bps b bps₁ b₁ new old code) (hb : Scoped b) : Scoped b₁ := by
  refine h.grown.scoped (fun l hl => ?_) (fun l' hl' hname => ?_) hb
  · obtain ⟨l', hl', hraise⟩ := exists_mem_of_forall₂ h.raised hl
    exact ⟨l', h.locals ▸ List.mem_append_right new hl', hraise.name⟩
  · rw [h.locals] at hl'
    rcases List.mem_append.1 hl' with hl' | hl'
    · exact absurd hname (h.names l' hl')
    · obtain ⟨l, hl, hraise⟩ := h.raised.exists_of_mem hl'
      exact ⟨l, hl, hraise.name ▸ hname⟩

/-- Then a token is taken. -/
theorem Declares.thenTake {bps bps₁ : List Blueprint} {b b₁ : Builder} {new old : List Local}
    {code : Code} (h : Declares bps b bps₁ b₁ new old code) :
    Declares bps b bps₁ b₁.take new old code :=
  { h with
    grown := List.append_nil code ▸ h.grown.trans (.take h.grown.sound) }

/-! ## Scopes -/

/-- A scope may be opened at any time. -/
theorem Sound.withDepth {bps : List Blueprint} {b : Builder} (h : Sound bps b) :
    Sound bps (b.withDepth (b.context.depth + 1)) :=
  { h with
    contexts := ⟨{ h.contexts.1 with
      depths := fun l hl => Nat.le_succ_of_le (h.contexts.1.depths l hl)
      top := fun hdepth => absurd hdepth (Nat.succ_ne_zero _) }, h.contexts.2⟩ }

/-- A builder once the locals of a scope are given up. -/
theorem Grown.endScope {bps bps' : List Blueprint} {b b' : Builder} {new old : List Local}
    {code : Code} (hb : Sound bps b) (h : Extends bps b bps' b' code)
    (hclasses : b'.classes = b.classes) (hlocals : b'.context.locals = new ++ old)
    (hraised : LocalsRaised b.context.locals old) :
    Grown bps b bps' ((b'.withDepth b.context.depth).withLocals old) code :=
  { h with
    classes := hclasses
    depth := rfl
    sound := { h.sound with
      contexts := ⟨{ h.sound.contexts.1 with
        sized := by
          have hsized := h.sound.contexts.1.sized
          rw [FunctionContext.Sized, hlocals, List.length_append] at hsized
          exact ⟨Nat.le_trans (Nat.le_add_left _ _) hsized.1, hsized.2⟩
        depths := by
          intro l hl
          obtain ⟨l', hl', hraise⟩ := hraised.exists_of_mem hl
          rw [hraise.depth]
          exact hb.contexts.1.depths l' hl'
        top := hb.contexts.1.top_raised hraised h.enclosing }, h.sound.contexts.2⟩ } }

namespace Build

variable {bps bps' : List Blueprint} {b b' : Builder} {u : Unit} {token : Token}

/-- Dropping some locals leaves what stands below them. -/
theorem drops_emit (exact : Bool) {locals : List Local} {line : Nat} (hb : Sound bps b)
    (h : Clean (locals.forM fun l => emitAt (dropOp l) line) b u b') :
    Emission exact bps b bps b' (.at (locals.map Local.slot))
        (locals.map fun l => ⟨dropOp l, [], line⟩) (.at []) ∧
          b'.context.locals = b.context.locals := by
  induction locals generalizing b with
  | nil =>
    obtain rfl := h.forM_nil
    exact ⟨.refl hb _, rfl⟩
  | cons l rest ih =>
    obtain ⟨_, b₁, hemit, h⟩ := h.forM_cons
    obtain rfl := hemit.of_emitAt
    have he : Emission exact bps b bps (b.emit (dropOp l) line)
      (.at (l.slot :: rest.map Local.slot))
        [⟨dropOp l, [], line⟩] (.at (rest.map Local.slot)) := by
      refine .emit hb line fun S _ => ?_
      unfold dropOp
      split
      · exact .close
      · next hcaptured =>
        rw [Local.slot, eq_false_of_ne_true hcaptured]
        exact .pop
    obtain ⟨hrest, hlocals⟩ := ih he.grown.sound h
    exact ⟨he.append hrest, hlocals⟩

/-- **A scope drops what is declared in it.** -/
theorem inScope_emits {step : Build Unit} [Cumulative step] (hb : Sound bps b)
    (hstep : ∀ b₁, Clean step (b.withDepth (b.context.depth + 1)) u b₁ →
      ∃ bps' new old code, Declares bps (b.withDepth (b.context.depth + 1)) bps' b₁ new old code)
    (h : Clean (inScope step) b u b') : Emits true bps b b' (.at []) (.at []) := by
  unfold inScope at h
  obtain ⟨_, _, hbegin, h⟩ := h.bind
  obtain rfl := hbegin.of_beginScope
  obtain ⟨outcome, b₁, hattempt, h⟩ := h.bind
  obtain ⟨_, b₂, hend, h⟩ := h.bind
  obtain ⟨rfl, rfl⟩ := h.of_conclude
  obtain ⟨bps', new, old, code, hdeclares⟩ := hstep b₁ hattempt.attempt_ok
  have hextends : Extends bps b bps' b₁ code := { hdeclares.grown.toExtends with }
  have hscope := Grown.endScope hb hextends hdeclares.grown.classes hdeclares.locals
    hdeclares.raised
  have hdrops := hend.of_endScope hdeclares.locals hdeclares.grown.depth hdeclares.depths
    hscope.sound.contexts.1.depths
  obtain ⟨he, hlocals⟩ := drops_emit true hscope.sound hdrops
  refine ⟨bps', _, hscope.trans he.grown, ?_, fun S hS => ?_⟩
  · rw [hlocals]
    exact hdeclares.raised
  · rw [hlocals] at hS
    refine Flow.append ((hdeclares.flow S hS).mono ?_ (Shape.Le.refl S)) (he.flow S (hlocals ▸ hS))
    exact he.grown.env_le hscope.sound

/-- A step that appends the code of a statement. -/
def EmitsStatement (step : Build Unit) : Prop :=
  ∀ ⦃bps : List Blueprint⦄ ⦃b b' : Builder⦄ ⦃u : Unit⦄, Sound bps b → Scoped b →
    Clean step b u b' → Emits true bps b b' (.at []) (.at [])

/-- A step that appends the code of a declaration. -/
def EmitsDeclaration (step : Build Unit) : Prop :=
  ∀ ⦃bps : List Blueprint⦄ ⦃b b' : Builder⦄ ⦃u : Unit⦄, Sound bps b → Scoped b →
    Clean step b u b' → ∃ bps' new old code, Declares bps b bps' b' new old code

/-- A statement is a declaration of nothing. -/
theorem EmitsStatement.declaration {step : Build Unit} (h : EmitsStatement step) :
    EmitsDeclaration step := by
  intro bps b b' u hb hscoped hclean
  obtain ⟨bps', code, he⟩ := h hb hscoped hclean
  exact ⟨bps', [], _, code, .of_emission he⟩

/-- An expression inside a statement. -/
theorem EmitsOperand.exact {step : Build Unit} (hstep : EmitsOperand step) (hb : Sound bps b)
    (hscoped : Scoped b) (h : Clean step b u b') :
    Emits true bps b b' (.at []) (.at [.operand]) :=
  (hstep hb hscoped h).rebase []

section

set_option synthInstance.maxSize 512

variable {inner : Phrase → Build Unit} [∀ p, Cumulative (inner p)]

/-! ## Blocks -/

/-- A block is gone on with as long as it has declarations. -/
theorem blockRound_declares {closing : TokenKind} {again : Bool}
    (hinner : EmitsDeclaration (inner .declaration)) (hb : Sound bps b) (hscoped : Scoped b)
    (h : Clean (blockRound inner closing) b again b') :
    ∃ bps' new old code, Declares bps b bps' b' new old code := by
  unfold blockRound at h
  obtain ⟨closed, _, hend, h⟩ := h.bind
  obtain ⟨-, rfl⟩ := hend.of_atEnd
  split at h
  · obtain ⟨-, rfl⟩ := h.of_pure
    exact ⟨bps, [], _, [], .of_emission (.refl hb _)⟩
  · obtain ⟨_, b₁, hdeclaration, h⟩ := h.bind
    obtain ⟨-, rfl⟩ := h.of_pure
    exact hinner hb hscoped hdeclaration

/-- Declarations up to the end of a block are one declaration of all their locals. -/
theorem declarations_declare {closing : TokenKind}
    (hinner : EmitsDeclaration (inner .declaration)) :
    EmitsDeclaration (repeatWhile (blockRound inner closing)) := by
  intro bps b b' u hb hscoped h
  have hround : ∀ b₁ b₂ again, (∃ bps' new old code, Declares bps b bps' b₁ new old code) →
      Clean (blockRound inner closing) b₁ again b₂ →
      ∃ bps' new old code, Declares bps b bps' b₂ new old code := by
    rintro b₁ b₂ again ⟨bps₁, new₁, old₁, c₁, h₁⟩ hround
    obtain ⟨bps₂, new₂, old₂, c₂, h₂⟩ :=
      blockRound_declares hinner h₁.grown.sound (h₁.scoped hscoped) hround
    obtain ⟨new, old, h⟩ := h₁.append h₂
    exact ⟨bps₂, new, old, _, h⟩
  obtain ⟨b₁, hb₁, hlast⟩ := h.repeatWhile
    (I := fun b' => ∃ bps' new old code, Declares bps b bps' b' new old code)
    ⟨bps, [], _, [], .of_emission (.refl hb _)⟩ fun b₁ b₂ => hround b₁ b₂ true
  exact hround b₁ b' false hb₁ hlast

/-- A block declares what its declarations do. -/
theorem block_declares (hinner : EmitsDeclaration (inner .declaration)) :
    EmitsDeclaration (block inner) := by
  intro bps b b' u hb hscoped h
  unfold block at h
  obtain ⟨_, b₁, hdeclarations, h⟩ := h.bind
  obtain ⟨_, b₂, hexpect, h⟩ := h.bind
  obtain ⟨-, -, rfl⟩ := hexpect.of_expect
  obtain ⟨-, rfl⟩ := h.of_pure
  obtain ⟨bps', new, old, code, hdeclares⟩ := declarations_declare hinner hb hscoped hdeclarations
  exact ⟨bps', new, old, code, hdeclares.thenTake⟩

/-- **A block in a scope of its own is a statement**: its locals are dropped at its end. -/
theorem scopedBlock_emits (hinner : EmitsDeclaration (inner .declaration)) :
    EmitsStatement (inScope (block inner)) := by
  intro bps b b' u hb hscoped h
  exact inScope_emits hb (fun b₁ hblock => block_declares hinner hb.withDepth
    (hscoped.congr rfl rfl rfl rfl) hblock) h

/-! ## Statements -/

variable (hexpression : ∀ least, EmitsOperand (inner (.expression least)))
  (hconditional : EmitsStatement (inner .conditional))
  (hdeclaration : EmitsDeclaration (inner .declaration))

include hconditional hdeclaration in
/-- What follows the word for the other branch is a statement, if there is one. -/
theorem alternative_emits : EmitsStatement (alternative inner) := by
  intro bps b b' u hb hscoped h
  unfold alternative at h
  obtain ⟨hasElse, b₁, helse, h⟩ := h.bind
  rcases helse.of_accept with ⟨rfl, -, rfl⟩ | ⟨rfl, -, rfl⟩
  · have he₁ : Emission true bps b bps b.take _ _ _ := .take hb (.at [])
    obtain ⟨hasIf, b₂, hif, h⟩ := h.bind
    rcases hif.of_accept with ⟨rfl, -, rfl⟩ | ⟨rfl, -, rfl⟩
    · exact he₁.thenTake.andThen
        (hconditional he₁.thenTake.grown.sound (he₁.thenTake.scoped hscoped) h)
    · obtain ⟨_, b₃, hbrace, h⟩ := h.bind
      obtain ⟨-, -, rfl⟩ := hbrace.of_expect
      exact he₁.thenTake.andThen
        (scopedBlock_emits hdeclaration he₁.thenTake.grown.sound (he₁.thenTake.scoped hscoped) h)
  · obtain ⟨-, rfl⟩ := h.of_pure
    exact ⟨bps, [], .refl hb _⟩

/-- A statement between a jump and the place where it lands: the condition is dropped first. -/
theorem dropThen_emits {step : Build Unit} {line : Nat} (hstep : EmitsStatement step)
    (hb : Sound bps b) (hscoped : Scoped b) (h : Clean step (b.emit .pop line) u b') :
    Emits true bps b b' (.at [.operand]) (.at []) := by
  have hdropped : Emission true bps b bps (b.emit .pop line) (.at [.operand]) _ (.at []) :=
    .emit hb line fun _ _ => .pop
  exact hdropped.andThen (hstep hdropped.grown.sound (hdropped.scoped hscoped) h)

include hexpression hconditional hdeclaration in
/-- **A conditional is a statement**: either way the condition is dropped. -/
theorem conditional_emits : EmitsStatement (conditional inner) := by
  intro bps b b' u hb hscoped h
  unfold conditional at h
  obtain ⟨_, b₁, hcondition, h⟩ := h.bind
  obtain ⟨line, _, hline, h⟩ := h.bind
  obtain ⟨-, rfl⟩ := hline.of_previousLine
  obtain ⟨_, b₂, hbrace, h⟩ := h.bind
  obtain ⟨-, -, rfl⟩ := hbrace.of_expect
  obtain ⟨bps₁, c₁, he₁⟩ :=
    ((anyExpression_emits hexpression).exact hb hscoped hcondition).thenTake
  obtain ⟨toElse, b₃, hjump, h⟩ := h.bind
  obtain ⟨rfl, rfl⟩ := hjump.of_emitJump
  obtain ⟨_, b₄, hpop, h⟩ := h.bind
  obtain rfl := hpop.of_emitAt
  obtain ⟨_, b₅, hblock, h⟩ := h.bind
  have hgo := Grown.emitJump he₁.grown.sound .jumpIfFalse line
  obtain ⟨bps₂, c₂, he₂⟩ := dropThen_emits (scopedBlock_emits hdeclaration) hgo.sound
    (hgo.scoped_of_locals rfl (he₁.scoped hscoped)) hblock
  obtain ⟨toEnd, b₆, hskip, h⟩ := h.bind
  obtain ⟨rfl, rfl⟩ := hskip.of_emitJump
  obtain ⟨_, b₇, hland, h⟩ := h.bind
  unfold landAndDrop at hland
  obtain ⟨_, b₈, hlands, hland⟩ := hland.bind
  obtain ⟨chunk, hpatch, rfl⟩ := hlands.of_patchJump
  obtain rfl := hland.of_emitAt
  obtain ⟨_, b₉, halternative, h⟩ := h.bind
  obtain ⟨chunk', hpatch', rfl⟩ := h.of_patchJump
  obtain ⟨-, hlanded, -⟩ := Grown.landed he₁.grown.sound he₂.grown hpatch
  have hscoped' : Scoped ((b₅.emitJump .jump line).withChunk chunk) :=
    hlanded.scoped_of_raised he₂.locals (he₁.scoped hscoped)
  obtain ⟨bps₃, c₃, he₃⟩ := dropThen_emits (alternative_emits hconditional hdeclaration)
    hlanded.sound hscoped' halternative
  exact he₁.andThen ⟨bps₃, _, .branch he₁.grown.sound he₂ hpatch he₃ hpatch'⟩

include hexpression hdeclaration in
/-- **A loop is a statement**: the stack is as high at its start whenever it is reached. -/
theorem whileLoop_emits : EmitsStatement (whileLoop inner) := by
  intro bps b b' u hb hscoped h
  unfold whileLoop at h
  obtain ⟨start, _, hstart, h⟩ := h.bind
  obtain ⟨rfl, rfl⟩ := hstart.of_codeSize
  obtain ⟨_, b₁, hcondition, h⟩ := h.bind
  obtain ⟨line, _, hline, h⟩ := h.bind
  obtain ⟨-, rfl⟩ := hline.of_previousLine
  obtain ⟨_, b₂, hbrace, h⟩ := h.bind
  obtain ⟨-, -, rfl⟩ := hbrace.of_expect
  obtain ⟨bps₁, c₁, he₁⟩ :=
    ((anyExpression_emits hexpression).exact hb hscoped hcondition).thenTake
  obtain ⟨toEnd, b₃, hjump, h⟩ := h.bind
  obtain ⟨rfl, rfl⟩ := hjump.of_emitJump
  obtain ⟨_, b₄, hpop, h⟩ := h.bind
  obtain rfl := hpop.of_emitAt
  obtain ⟨_, b₅, hblock, h⟩ := h.bind
  have hgo := Grown.emitJump he₁.grown.sound .jumpIfFalse line
  obtain ⟨bps₂, c₂, he₂⟩ := dropThen_emits (scopedBlock_emits hdeclaration) hgo.sound
    (hgo.scoped_of_locals rfl (he₁.scoped hscoped)) hblock
  obtain ⟨_, b₆, hagain, h⟩ := h.bind
  obtain ⟨chunk, hloop, rfl⟩ := hagain.of_emitLoop
  unfold landAndDrop at h
  obtain ⟨_, b₇, hlands, h⟩ := h.bind
  obtain ⟨chunk', hpatch, rfl⟩ := hlands.of_patchJump
  obtain rfl := h.of_emitAt
  exact ⟨bps₂, _, .loop he₁ he₂ hloop hpatch⟩

include hexpression in
omit [∀ p, Cumulative (inner p)] in
/-- Printing takes the value of its expression. -/
theorem printStatement_emits : EmitsStatement (printStatement inner token) := by
  intro bps b b' u hb hscoped h
  unfold printStatement at h
  obtain ⟨_, b₁, hvalue, h⟩ := h.bind
  obtain ⟨_, b₂, hsemicolon, h⟩ := h.bind
  obtain ⟨-, -, rfl⟩ := hsemicolon.of_expect
  obtain rfl := h.of_emitAt
  obtain ⟨bps₁, code, he⟩ := ((anyExpression_emits hexpression).exact hb hscoped hvalue).thenTake
  exact he.andThen (.emit he.grown.sound fun _ _ => .print)

include hexpression in
omit [∀ p, Cumulative (inner p)] in
/-- An expression as a statement drops its value. -/
theorem expressionStatement_emits : EmitsStatement (expressionStatement inner) := by
  intro bps b b' u hb hscoped h
  unfold expressionStatement at h
  obtain ⟨_, b₁, hvalue, h⟩ := h.bind
  obtain ⟨_, b₂, hsemicolon, h⟩ := h.bind
  obtain ⟨-, -, rfl⟩ := hsemicolon.of_expect
  obtain rfl := h.of_emitAt
  obtain ⟨bps₁, code, he⟩ := ((anyExpression_emits hexpression).exact hb hscoped hvalue).thenTake
  exact he.andThen (.emit he.grown.sound fun _ _ => .pop)

/-- Leaving the call with the operand on top; what follows is never reached. -/
theorem ret_emits {line : Nat} (hb : Sound bps b) (hkind : b.context.function.kind ≠ .initializer) :
    Emits true bps b (b.emit .ret line) (.at [.operand]) (.at []) :=
  ⟨bps, _, .emit hb .ret line, LocalsRaised.refl _, fun _ _ =>
    .ret (if_neg (mt of_decide_eq_true hkind)).symm line⟩

include hexpression in
/-- A return is a statement, since nothing behind it is reached from it. -/
theorem returnStatement_emits : EmitsStatement (returnStatement inner token) := by
  intro bps b b' u hb hscoped h
  unfold returnStatement at h
  replace h := h.bind_get
  have hreturn : b.context.function.kind ≠ .initializer →
      Clean (do
        if ← accept .semicolon then emitReturn
        else
          anyExpression inner
          let _ ← expect .semicolonAfterReturn
          emitAt .ret token.line) b u b' → Emits true bps b b' (.at []) (.at []) := by
    intro hkind h
    obtain ⟨bare, b₁, hsemicolon, h⟩ := h.bind
    rcases hsemicolon.of_accept with ⟨rfl, -, rfl⟩ | ⟨rfl, -, rfl⟩
    · have he₁ : Emission true bps b bps b.take _ _ _ := .take hb (.at [])
      rcases h.of_emitReturn with ⟨hinit, -⟩ | ⟨-, rfl⟩
      · exact absurd hinit hkind
      · have hnil : Emission true bps b.take bps
          (b.take.emit .pushNil b.take.previous.line) (.at []) _
            (.at [.operand]) :=
          .emit he₁.grown.sound _ fun _ _ => .push (by decide)
        exact he₁.andThen (hnil.andThen (ret_emits hnil.grown.sound hkind))
    · obtain ⟨_, b₂, hvalue, h⟩ := h.bind
      obtain ⟨_, b₃, hsemicolon, h⟩ := h.bind
      obtain ⟨-, -, rfl⟩ := hsemicolon.of_expect
      obtain rfl := h.of_emitAt
      obtain ⟨bps₁, code, he⟩ :=
        ((anyExpression_emits hexpression).exact hb hscoped hvalue).thenTake
      exact he.andThen (ret_emits he.grown.sound (he.grown.kind ▸ hkind))
  split at h
  · exact absurd h Clean.not_fail
  · exact absurd h Clean.not_fail
  · next hkind => exact hreturn (by rw [hkind]; simp) h
  · next hkind => exact hreturn (by rw [hkind]; simp) h

include hexpression hconditional hdeclaration in
/-- **Every statement leaves the stack as it was**. -/
theorem statement_emits : EmitsStatement (statement inner) := by
  intro bps b b' u hb hscoped h
  unfold statement at h
  obtain ⟨token, _, hpeek, h⟩ := h.bind_of_cumulative fun token => by split <;> infer_instance
  obtain ⟨rfl, rfl⟩ := hpeek.of_peek
  have htaken : Emission true bps b bps b.take _ _ _ := .take hb (.at [])
  have hscoped' := htaken.scoped hscoped
  have hafter : ∀ {step : Build Unit}, EmitsStatement step → Cumulative step →
      Clean (advance >>= fun _ => step) b u b' → Emits true bps b b' (.at []) (.at []) := by
    intro step hstep _ h
    obtain ⟨_, b₁, hadvance, h⟩ := h.bind
    obtain ⟨-, rfl⟩ := hadvance.of_advance
    exact htaken.andThen (hstep htaken.grown.sound hscoped' h)
  split at h
  · exact hafter (printStatement_emits hexpression) inferInstance h
  · exact hafter hconditional inferInstance h
  · exact hafter (whileLoop_emits hexpression hdeclaration) inferInstance h
  · exact hafter (returnStatement_emits hexpression) inferInstance h
  · exact hafter (scopedBlock_emits hdeclaration) inferInstance h
  · exact expressionStatement_emits hexpression hb hscoped h

end

end Build

end ScriptVM
