/-
# The code of functions

A function starts with its callee and its parameters on the stack, and ends by leaving the call.
What is known about it when it is finished is its blueprint; making a closure of it finds each
captured variable in the functions around.

Main statement: `function_emits`, which says that a finished function is as its blueprint says, and
that the closure is all that the code behind it leaves.
-/
import ScriptVM.Proofs.Program.Statements

namespace ScriptVM

/-! ## Declaring a local -/

/-- A builder with other locals. -/
theorem Grown.withLocals {bps : List Blueprint} {b : Builder} {locals : List Local}
    (h : Sound bps b) (hdepth : b.context.depth ≠ 0)
    (hlength : locals.length ≤ FunctionContext.localLimit)
    (hdepths : ∀ l ∈ locals, l.depth ≤ b.context.depth) :
    Grown bps b bps (b.withLocals locals) [] :=
  { Grown.refl h with
    sound := { h with
      contexts := ⟨{ h.contexts.1 with
        sized := ⟨hlength, h.contexts.1.sized.2⟩
        depths := hdepths
        top := fun hzero => absurd hzero hdepth }, h.contexts.2⟩ } }

/-- A builder with one more local. -/
theorem Grown.addLocal {bps : List Blueprint} {b : Builder} (h : Sound bps b) (name : String)
    (initialized : Bool) (hdepth : b.context.depth ≠ 0)
    (hroom : b.context.locals.length < FunctionContext.localLimit) :
    Grown bps b bps
      (b.withLocals (⟨name, b.context.depth, initialized, false⟩ :: b.context.locals)) [] := by
  refine .withLocals h hdepth hroom fun l hl => ?_
  rcases List.mem_cons.1 hl with rfl | hl
  · exact Nat.le_refl _
  · exact h.contexts.1.depths l hl

/-- The innermost local is marked. -/
theorem Build.Clean.of_markInitialized_cons {b b' : Builder} {u : Unit} {l : Local}
    {old : List Local} (h : Clean markInitialized b u b') (hdepth : b.context.depth ≠ 0)
    (hlocals : b.context.locals = l :: old) :
    b.withLocals ({ l with initialized := true } :: old) = b' := by
  rw [← h.of_markInitialized]
  have hmark : b.context.markInitialized
      = { b.context with locals := { l with initialized := true } :: old } := by
    unfold FunctionContext.markInitialized
    split
    · next hl => rw [hlocals] at hl; cases hl; rfl
    · next hnone =>
      obtain ⟨depth, hd⟩ := Nat.exists_eq_succ_of_ne_zero hdepth
      exact absurd hlocals (hnone depth l old hd)
  rw [hmark]
  rfl

/-- At the top level nothing is marked. -/
theorem Build.Clean.of_markInitialized_zero {b b' : Builder} {u : Unit}
    (h : Clean markInitialized b u b') (hdepth : b.context.depth = 0) : b = b' := by
  rw [← h.of_markInitialized]
  have hmark : b.context.markInitialized = b.context := by
    unfold FunctionContext.markInitialized
    rw [hdepth]
  rw [hmark]

/-- The innermost local gets its value. -/
theorem Grown.markInitialized {bps : List Blueprint} {b : Builder} {l : Local} {old : List Local}
    (h : Sound bps b) (hdepth : b.context.depth ≠ 0) (hlocals : b.context.locals = l :: old) :
    Grown bps b bps (b.withLocals ({ l with initialized := true } :: old)) [] := by
  have hsized := h.contexts.1.sized.1
  have hdepths := h.contexts.1.depths
  rw [hlocals] at hsized hdepths
  refine .withLocals h hdepth hsized fun l' hl' => ?_
  rcases List.mem_cons.1 hl' with rfl | hl'
  · exact hdepths l List.mem_cons_self
  · exact hdepths l' (List.mem_cons_of_mem _ hl')

/-- A plain name hides nothing. -/
theorem Scoped.addLocal {bps bps' : List Blueprint} {b b' : Builder} {code : Code} {l : Local}
    (hb : Scoped b) (h : Grown bps b bps' b' code)
    (hlocals : b'.context.locals = l :: b.context.locals)
    (hl : SlotKind.ofName l.name = .value) : Scoped b' := by
  refine h.scoped (fun l hl => ⟨l, hlocals ▸ List.mem_cons_of_mem _ hl, rfl⟩) ?_ hb
  intro l' hl' hname
  rw [hlocals] at hl'
  rcases List.mem_cons.1 hl' with rfl | hl'
  · exact absurd hname (SlotKind.ne_super_of_ofName hl)
  · exact ⟨l', hl', hname⟩

/-- A local without a value takes no slot. -/
theorem Covers.cons {l : Local} {old : List Local} {S : Shape} (h : Covers old S)
    (hl : l.initialized = false) : Covers (l :: old) S := by
  intro i l' hl' hinit
  rw [slot?] at hl'
  split at hl'
  · injection hl' with hl'
    subst hl'
    rw [hl] at hinit
    exact absurd hinit (by simp)
  · exact h i l' hl' hinit

/-- A shape covers a local with its slot. -/
theorem Covers.singleton (l : Local) : Covers [l] [l.slot] := by
  intro i l' hl' hinit
  refine ⟨l'.slot, ?_, Slot.Le.refl _⟩
  rw [show [l.slot] = [l].map Local.slot from rfl, slot?_map, hl']
  rfl

namespace Build

variable {bps bps' : List Blueprint} {b b' : Builder} {u : Unit} {token : Token}

/-- A global variable gets the value on top. -/
theorem defineGlobal_emits {index : UInt8} {name : String} {line : Nat} (hb : Sound bps b)
    (hname : (b.env bps).Names index name) :
    Emits true bps b (b.emitWith .defineGlobal index line) (.at [.operand]) (.at []) :=
  .emitWith hb fun _ _ => .define hname

/-- A plain variable can hold any value. -/
theorem operand_le_slot {l : Local} (h : SlotKind.ofName l.name = .value) :
    Slot.operand.Le l.slot :=
  ⟨h.symm, by simp⟩

section

set_option synthInstance.maxSize 512

variable {inner : Phrase → Build Unit} [∀ p, Cumulative (inner p)]
  (hexpression : ∀ least, EmitsOperand (inner (.expression least)))
include hexpression

omit [∀ p, Cumulative (inner p)] in
/-- The initial value of a variable, with the semicolon behind it. -/
theorem initialValue_emits {b₁ : Builder} {given : Bool} {f : Unit → Build Unit}
    [∀ v, Cumulative (f v)] (hb : Sound bps b) (hscoped : Scoped b)
    (hequal : Clean (accept .equal) b given b₁)
    (h : Clean (if given = true then anyExpression inner >>= f else emit .pushNil >>= f) b₁ u b') :
    ∃ v b₂, Emits false bps b b₂ (.at []) (.at [.operand]) ∧ Clean (f v) b₂ u b' := by
  rcases hequal.of_accept with ⟨rfl, -, rfl⟩ | ⟨rfl, -, rfl⟩
  · obtain ⟨v, b₂, hvalue, h⟩ := Clean.bind h
    have htaken : Emission false bps b bps b.take _ _ _ := .take hb (.at [])
    exact ⟨v, b₂, htaken.andThen (anyExpression_emits hexpression htaken.grown.sound
      (htaken.scoped hscoped) hvalue), h⟩
  · obtain ⟨v, b₂, hvalue, h⟩ := Clean.bind h
    obtain rfl := hvalue.of_emit
    exact ⟨v, _, .emit hb fun _ _ => .push (by decide), h⟩

/-- The declaration of a variable declares it. -/
theorem variableDeclaration_declares : EmitsDeclaration (variableDeclaration inner) := by
  intro bps b b' u hb hscoped h
  unfold variableDeclaration at h
  obtain ⟨name?, b₁, hname, hrest⟩ := h.bind
  obtain ⟨given, b₂, hequal, hvalue⟩ := hrest.bind
  clear h hrest
  obtain ⟨hkind, hcases⟩ := hname.of_variableName
  have hplain := SlotKind.ofName_of_plain ((Builder.next_plain hb).identifier hkind)
  have htaken := Grown.take hb
  rcases hcases with ⟨hdepth, index, chunk, rfl, hadd, rfl⟩ | ⟨hdepth, rfl, hroom, rfl⟩
  · -- A global is defined by its name once the value is there.
    obtain ⟨hgrown, hnames⟩ := Grown.addName htaken.sound hadd
    have he₁ : Emission false bps b bps _ (.at []) _ (.at []) :=
      .of_grown (htaken.trans hgrown) rfl _
    obtain ⟨_, b₃, hoperand, h⟩ := initialValue_emits hexpression hgrown.sound (he₁.scoped hscoped)
      hequal hvalue
    obtain ⟨_, b₄, hsemicolon, h⟩ := h.bind
    obtain ⟨-, -, rfl⟩ := hsemicolon.of_expect
    unfold defineVariable at h
    obtain ⟨_, _, hline, h⟩ := h.bind
    obtain ⟨rfl, rfl⟩ := hline.of_previousLine
    obtain rfl := h.of_emitWithAt
    have hoperand' : Emits true bps _ b₃ (.at []) (.at [.operand]) := hoperand.rebase []
    obtain ⟨bps₃, code, he⟩ := hoperand'.thenTake
    have hnames' := (he.grown.env_le hgrown.sound).constants hnames
    obtain ⟨bps₄, code', he'⟩ := he.andThen (defineGlobal_emits he.grown.sound hnames')
    exact ⟨bps₄, [], _, _, .of_emission
      ((Emission.of_grown (htaken.trans hgrown) rfl _).append he')⟩
  · -- The local has no value, and so no slot, while its initial value is computed.
    have hadd := Grown.addLocal htaken.sound b.next.lexeme false hdepth hroom
    have hscoped' := hscoped.addLocal (htaken.trans hadd) rfl hplain
    obtain ⟨_, b₃, hoperand, h⟩ := initialValue_emits hexpression hadd.sound hscoped' hequal hvalue
    obtain ⟨_, b₄, hsemicolon, h⟩ := h.bind
    obtain ⟨-, -, rfl⟩ := hsemicolon.of_expect
    have h : Clean markInitialized b₃.take u b' := h
    obtain ⟨bps₃, code, he⟩ := hoperand.thenTake
    obtain ⟨l, old, hl, hold, hlocals⟩ := List.forall₂_cons_left_iff.1 he.locals
    have hdepth₃ : b₃.take.context.depth ≠ 0 := he.grown.depth ▸ hdepth
    obtain rfl := h.of_markInitialized_cons hdepth₃ hlocals
    have hmark := Grown.markInitialized he.grown.sound hdepth₃ hlocals
    have hgrown := (htaken.trans hadd).trans (he.grown.trans hmark)
    rw [List.append_nil, List.nil_append, List.append_nil] at hgrown
    refine ⟨bps₃, [{ l with initialized := true }], old, code, hgrown, rfl, hold, ?_, ?_, ?_, ?_⟩
    · intro l' hl'
      rw [List.mem_singleton.1 hl']
      exact hl.depth
    · intro l' hl'
      rw [List.mem_singleton.1 hl']
      exact SlotKind.ne_super_of_ofName ((congrArg SlotKind.ofName hl.name).trans hplain)
    · exact fun hzero => absurd hzero hdepth
    · intro S hS
      have hcovers : Suits false b₃.take.context.locals S :=
        ⟨hlocals ▸ hS.covers.cons hl.initialized, by simp⟩
      refine (he.flow S hcovers).weaken ⟨.cons (operand_le_slot ?_) .nil, .inl rfl⟩
      exact (congrArg SlotKind.ofName hl.name).trans hplain

end

/-! ## Parameters -/

end Build

/-- A builder at the start of a function inside the one at hand. -/
def Builder.beginFunction (b : Builder) (name : String) (kind : FunctionKind) : Builder :=
  { b with context := .start name kind, enclosing := b.context :: b.enclosing }

/-- A function that is not a member finds the superclass where the function around does. -/
theorem Scoped.beginFunction {b : Builder} (h : Scoped b) (name : String) :
    Scoped (b.beginFunction name .function) := by
  intro hsuper
  obtain ⟨⟨c, hc, hself⟩, hderived⟩ := h hsuper
  refine ⟨⟨c, List.mem_cons_of_mem _ hc, hself⟩, .nested rfl ?_ hderived⟩
  intro l hl
  rw [List.mem_singleton.1 hl]
  decide

/-- The function at hand has parameters, which are all its locals but the callee, and nothing else
has happened since it started. -/
structure Enters (bps : List Blueprint) (b b' : Builder) (parameters : List Local) : Prop where
  /-- The builder holds together. -/
  sound : Sound bps b'
  /-- The function stays but for the number of its parameters. -/
  function : b'.context.function
    = { b.context.function with arity := b'.context.function.arity }
  /-- The parameters are locals. -/
  locals : b'.context.locals = parameters ++ b.context.locals
  /-- Nothing more is captured. -/
  captures : b'.context.captures = b.context.captures
  /-- The depth stays. -/
  depth : b'.context.depth = b.context.depth
  /-- The parameters are counted. -/
  arity : b'.context.function.arity.toNat = parameters.length
  /-- Parameters are any values. -/
  values : ∀ l ∈ parameters, SlotKind.ofName l.name = .value
  /-- The functions around stay. -/
  enclosing : b'.enclosing = b.enclosing
  /-- The classes around stay. -/
  classes : b'.classes = b.classes
  /-- The finished functions stay. -/
  functions : b'.functions = b.functions

theorem Enters.take {bps : List Blueprint} {b b' : Builder} {parameters : List Local}
    (h : Enters bps b b' parameters) : Enters bps b b'.take parameters :=
  { h with sound := (Grown.take h.sound).sound }

namespace Build

variable {bps bps' : List Blueprint} {b b' : Builder} {u : Unit} {token : Token}

/-- One more parameter. -/
theorem parameter_enters {b₀ : Builder} {parameters : List Local} {again : Bool}
    (hb : Enters bps b₀ b parameters) (hdepth : b₀.context.depth ≠ 0)
    (h : Clean parameter b again b') : ∃ parameters', Enters bps b₀ b' parameters' := by
  unfold parameter at h
  replace h := h.bind_get
  dsimp only at h
  -- The build is clean, so there were fewer parameters than the limit and the arity does not wrap
  -- around.
  split at h
  · obtain ⟨_, _, -, h⟩ := h.bind
    obtain ⟨_, _, hfail, -⟩ := h.bind
    exact absurd hfail Clean.not_fail
  · next hlimit =>
    obtain ⟨_, b₁, hcount, h⟩ := h.bind
    replace hcount := hcount.of_modifyContext
    obtain ⟨name?, b₂, hname, h⟩ := h.bind
    obtain ⟨_, b₃, hdefine, h⟩ := h.bind
    have hsound : Sound bps b₁ := by
      subst hcount
      exact { hb.sound with
        contexts := ⟨{ hb.sound.contexts.1 with }, hb.sound.contexts.2⟩
        linked := hb.sound.linked }
    have hdepth₁ : b₁.context.depth = b₀.context.depth := by
      rw [← hcount, ← hb.depth]
    obtain ⟨hkind, hcases⟩ := hname.of_variableName
    have hplain := SlotKind.ofName_of_plain ((Builder.next_plain hsound).identifier hkind)
    rcases hcases with ⟨hzero, -⟩ | ⟨-, rfl, hroom, rfl⟩
    · exact absurd (hdepth₁.symm.trans hzero) hdepth
    have htaken := Grown.take hsound
    have hdepth' : b₁.take.context.depth ≠ 0 := fun hzero => hdepth (hdepth₁.symm.trans hzero)
    have hadd := Grown.addLocal htaken.sound b₁.next.lexeme false hdepth' hroom
    have hdefine : Clean markInitialized _ _ b₃ := hdefine
    obtain rfl := hdefine.of_markInitialized_cons hdepth' rfl
    have hmark := Grown.markInitialized hadd.sound hdepth' rfl
    have henters : Enters bps b₀ (b₁.take.withLocals
        (⟨b₁.next.lexeme, b₁.context.depth, true, false⟩ :: b₁.context.locals))
        (⟨b₁.next.lexeme, b₁.context.depth, true, false⟩ :: parameters) := by
      subst hcount
      exact {
        sound := hmark.sound
        function := congrArg
          (fun f : Function => { f with arity := b.context.function.arity + 1 }) hb.function
        locals := congrArg (_ :: ·) hb.locals
        captures := hb.captures
        depth := hb.depth
        arity := by
          show (b.context.function.arity + 1).toNat = _
          have hlt := b.context.function.arity.toNat_lt
          rw [argumentLimit] at hlimit
          rw [UInt8.toNat_add, Nat.mod_eq_of_lt (by simp; omega), hb.arity]
          rfl
        values := by
          intro l hl
          rcases List.mem_cons.1 hl with rfl | hl
          · exact hplain
          · exact hb.values l hl
        enclosing := hb.enclosing
        classes := hb.classes
        functions := hb.functions }
    rcases h.of_accept with ⟨-, -, rfl⟩ | ⟨-, -, rfl⟩
    · exact ⟨_, henters.take⟩
    · exact ⟨_, henters⟩

/-- Parameters are declared in the slots above the one of the function. -/
theorem parameters_enter {b₀ : Builder} (hb : Enters bps b₀ b []) (hdepth : b₀.context.depth ≠ 0)
    (h : Clean parameters b u b') : ∃ ps, Enters bps b₀ b' ps := by
  unfold parameters at h
  obtain ⟨_, b₁, hparen, h⟩ := h.bind
  obtain ⟨-, -, rfl⟩ := hparen.of_expect
  obtain ⟨empty, _, hcheck, h⟩ := h.bind
  obtain ⟨-, rfl⟩ := hcheck.of_check
  have hclose : ∀ {b₂ b' : Builder} {ps : List Local}, Enters bps b₀ b₂ ps →
      Clean (expect .parenAfterParameters >>= fun _ => Pure.pure ()) b₂ u b' →
      ∃ ps, Enters bps b₀ b' ps := by
    intro b₂ b' ps hps h
    obtain ⟨_, _, hparen, h⟩ := h.bind
    obtain ⟨-, -, rfl⟩ := hparen.of_expect
    obtain ⟨-, rfl⟩ := h.of_pure
    exact ⟨ps, hps.take⟩
  split at h
  · obtain ⟨_, b₂, hrounds, h⟩ := h.bind
    have hround : ∀ b₁ b₂ again, (∃ ps, Enters bps b₀ b₁ ps) → Clean parameter b₁ again b₂ →
        ∃ ps, Enters bps b₀ b₂ ps :=
      fun b₁ b₂ again ⟨ps, hps⟩ hround => parameter_enters hps hdepth hround
    obtain ⟨b₃, hb₃, hlast⟩ := hrounds.repeatWhile (I := fun b' => ∃ ps, Enters bps b₀ b' ps)
      ⟨[], hb.take⟩ fun b₁ b₂ => hround b₁ b₂ true
    obtain ⟨ps, hps⟩ := hround b₃ b₂ false hb₃ hlast
    exact hclose hps h
  · exact hclose hb.take h

/-! ## Finished functions -/

end Build

/-- What a closure of a function of a kind is used for when it is made. -/
def FunctionKind.closureKind (kind : FunctionKind) : SlotKind :=
  if kind.isMember then .member else .value

theorem FunctionKind.isMember_iff (kind : FunctionKind) :
    kind.isMember = true ↔ kind = .method ∨ kind = .initializer := by
  cases kind <;> decide

theorem FunctionKind.ofName_receiverName (kind : FunctionKind) :
    SlotKind.ofName (FunctionContext.receiverName kind)
      = if kind.isMember then .receiver else .callee := by
  cases kind <;> decide

/-- **A function is as a blueprint says** if its code flows from its parameters, above the callee,
and never behind its end. -/
theorem Function.Fits.of_flow {bps : List Blueprint} {f : Function} {name : String}
    {captures : List SlotKind} {parameters : List Local} {callee : Local} {front : Code}
    {line : Nat} (hcode : (Chunk.empty name).Appends f.chunk (front ++ [⟨.ret, [], line⟩]))
    (harity : f.arity.toNat = parameters.length)
    (hvalues : ∀ l ∈ parameters, SlotKind.ofName l.name = .value)
    (hcaptures : captures.length = f.captureCount)
    (hconstants : ConstantsOk bps.length f.chunk.constants)
    (hcallee : callee.name = FunctionContext.receiverName f.kind)
    (hflow : Flow ⟨f.chunk.constants, bps, captures, f.kind = .initializer⟩ [callee.slot]
      (.at (parameters.map Local.slot)) (front ++ [⟨.ret, [], line⟩]) none) :
    ∃ bp : Blueprint, bp.captures = captures ∧ bp.isMember = f.kind.isMember ∧
      bp.initializes = decide (f.kind = .initializer) ∧ f.Fits bps bp := by
  obtain ⟨marks, hmarks, hentry, hhold⟩ := hflow
  refine ⟨⟨captures, f.kind.isMember, f.kind = .initializer, callee.slot,
    parameters.map Local.slot, marks⟩, rfl, rfl, rfl, ?_⟩
  exact {
    code := by rw [hcode.code_eq, hmarks]; rfl
    lines := by rw [hcode.lines_eq, hmarks]; rfl
    arity := by rw [harity, List.length_map]
    parameters := by
      intro s hs
      obtain ⟨l, hl, rfl⟩ := List.mem_map.1 hs
      exact hvalues l hl
    captures := hcaptures
    constants := hconstants
    member := f.kind.isMember_iff
    initializer := rfl
    receiver := by
      rw [← FunctionKind.ofName_receiverName, ← hcallee]
      rfl
    entry := hentry
    hold := hhold
    last := ⟨front, line, hmarks⟩ }

/-- A closure finds the variables that its function captures in the function around. -/
theorem supplies_of_linked {Γ : Env} {c outer : FunctionContext} {around : List FunctionContext}
    {Y : Shape} (hΓ : Γ.captures = captureKinds (outer :: around))
    (hlinked : ∀ capture ∈ c.captures.toList, capture.Linked (outer :: around))
    (hY : Covers outer.locals Y) :
    List.Forall₂ (Γ.Supplies Y) c.captures.toList (captureKinds (c :: outer :: around)) := by
  rw [captureKinds, List.forall₂_map_right_iff, List.forall₂_same]
  intro capture hcapture
  have hlink := hlinked capture hcapture
  rw [Capture.Linked] at hlink
  rw [Env.Supplies]
  split at hlink
  · next hlocal =>
    obtain ⟨l, hl, hinit, hcaptured⟩ := hlink
    obtain ⟨⟨kind, captured⟩, hs, hkind, hle⟩ := hY _ _ hl hinit
    have hkind : SlotKind.ofName l.name = kind := hkind
    have hcaptured : captured = true := hle hcaptured
    rw [if_pos hlocal, if_pos hlocal, hs, localKind, hl, Option.map_some, Option.getD_some, hkind,
      hcaptured]
  · next hlocal =>
    rw [if_neg hlocal, if_neg hlocal, hΓ]
    rw [← length_captureKinds_cons outer around] at hlink
    rw [List.getD_eq_getElem?_getD, List.getElem?_eq_getElem hlink, Option.getD_some]

namespace Build

variable {bps bps' : List Blueprint} {b b' : Builder} {u : Unit} {token : Token}

/-- The end of a function leaves the call. -/
theorem emitReturn_leaves (hb : Sound bps b) (h : Clean emitReturn b u b') :
    ∃ code line, Grown bps b bps b' (code ++ [⟨.ret, [], line⟩]) ∧
      b'.context.locals = b.context.locals ∧ b'.enclosing = b.enclosing ∧
      ∀ (callee : Slot) (X : Shape), callee.kind.Serves .value →
        Flow (b'.env bps) [callee] (.at X) (code ++ [⟨.ret, [], line⟩]) none := by
  rcases h.of_emitReturn with ⟨hinit, rfl⟩ | ⟨hother, rfl⟩
  · have hself := Grown.emitWith hb .getLocal 0 b.previous.line
    refine ⟨_, _, hself.trans (.emit hself.sound .ret b.previous.line), rfl, rfl, ?_⟩
    intro callee X hcallee
    have hslot : slot? (X ++ [callee]) 0 = some callee :=
      slot?_append_of_some (slot?_cons_length callee [])
    exact (Flow.of_runs (.readOwn hslot hcallee) _).append
      (.ret (if_pos (decide_eq_true hinit)).symm _)
  · have hnil := Grown.emit hb .pushNil b.previous.line
    refine ⟨_, _, hnil.trans (.emit hnil.sound .ret b.previous.line), rfl, rfl, ?_⟩
    intro callee X _
    exact (Flow.of_runs (.push (by decide)) _).append
      (.ret (if_neg (mt of_decide_eq_true hother)).symm _)

/-- The captured variables of a closure become operand bytes. -/
theorem captures_append {captures : List Capture} {line : Nat} {chunk : Chunk} {op : Opcode}
    {operands : List UInt8}
    (h : Clean (captures.forM fun capture => do
      emitByteAt (if capture.isLocal then 1 else 0) line
      emitByteAt capture.index line) b u b')
    (hcode : chunk.Appends b.chunk [⟨op, operands, line⟩]) :
    ∃ chunk', b.withChunk chunk' = b' ∧ chunk'.constants = b.chunk.constants ∧
      chunk.Appends chunk' [⟨op, operands ++ captureBytes captures, line⟩] := by
  induction captures generalizing b operands with
  | nil =>
    obtain rfl := h.forM_nil
    refine ⟨b.chunk, rfl, rfl, ?_⟩
    rw [captureBytes, List.flatMap_nil, List.append_nil]
    exact hcode
  | cons capture rest ih =>
    obtain ⟨_, b₁, hbytes, h⟩ := h.forM_cons
    obtain ⟨_, b₂, hflag, hindex⟩ := hbytes.bind
    obtain rfl := hflag.of_emitByteAt
    obtain rfl := hindex.of_emitByteAt
    have hflagged := Chunk.Appends.addByte (a := []) hcode (if capture.isLocal then 1 else 0)
    have hindexed := Chunk.Appends.addByte (a := []) hflagged capture.index
    obtain ⟨chunk', hb', hconstants, hchunk'⟩ := ih h hindexed
    refine ⟨chunk', hb', hconstants, ?_⟩
    rw [List.append_assoc, List.append_assoc] at hchunk'
    exact hchunk'

end Build

/-! ## Functions inside functions -/

/-- A closure of a function of a kind is made: one of a member above its class, which stands above
the locals, of which the topmost is known if it is a superclass. -/
def Receives (kind : FunctionKind) (locals : List Local) (S : Shape) (st : Stage) : Prop :=
  if kind.isMember then
    ∃ derived, st = .held derived ∧ S.length = locals.length + 1 ∧
      ∀ l ∈ locals.head?, l.name = "super" → derived = true
  else st = .plain

/-- A closure is made where a class can receive it, if it is that of a member. -/
theorem Receives.makes {kind : FunctionKind} {locals : List Local} {S : Shape} {st : Stage}
    (h : Receives kind locals S st) : st.Makes kind.isMember := by
  unfold Receives at h
  unfold Stage.Makes
  split at h
  · next hkind =>
    obtain ⟨derived, hst, -⟩ := h
    rw [if_pos hkind]
    exact ⟨derived, hst⟩
  · next hkind =>
    rw [if_neg hkind]
    exact h

/-- A captured superclass that is found where it should is inherited by the closure. -/
theorem Receives.inherits {kind : FunctionKind} {outer : FunctionContext}
    {around : List FunctionContext} {S : Shape} {st : Stage} {c : Capture}
    (h : Receives kind outer.locals S st) (hc : c.Rooted kind.isMember (outer :: around))
    (hparent : c.kind (outer :: around) = .parent) : c.Inherits kind.isMember st S.length := by
  have hroot := hc hparent
  unfold Receives at h
  unfold Capture.Inherits
  split at h
  · next hkind =>
    rw [if_pos hkind] at hroot ⊢
    obtain ⟨derived, rfl, hlength, htop⟩ := h
    obtain ⟨hlocal, _, _, heq, hindex⟩ := hroot
    obtain ⟨rfl, rfl⟩ := List.cons.inj heq
    refine ⟨?_, hlocal, by omega⟩
    -- The topmost local is the superclass.
    rw [Capture.kind, if_pos hlocal, localKind] at hparent
    cases hlocals : outer.locals with
    | nil => simp [hlocals] at hindex
    | cons l old =>
      rw [hlocals] at hindex hparent htop
      have hold : c.index.toNat = old.length := Nat.succ.inj hindex
      rw [hold, slot?_cons_length, Option.map_some, Option.getD_some] at hparent
      rw [htop l rfl (SlotKind.eq_super_of_ofName hparent)]
  · next hkind =>
    rw [if_neg hkind] at hroot ⊢
    exact hroot

/-- **What a clean function appends to the one around it**: code that leaves its closure, which can
capture the slot that it is about to take. -/
structure Closes (kind : FunctionKind) (bps : List Blueprint) (b : Builder) (bps' : List Blueprint)
    (b' : Builder) (code : Code) : Prop where
  /-- What it does to the builder. -/
  grown : Grown bps b bps' b' code
  /-- The locals stay, though more of them may be captured. -/
  locals : LocalsRaised b.context.locals b'.context.locals
  /-- What the code does. -/
  flow : ∀ S captured st, Covers b'.context.locals (⟨kind.closureKind, captured⟩ :: S) →
    Receives kind b'.context.locals S st →
    Flow (b'.env bps') S ⟨[], st⟩ code
      (some ⟨[⟨kind.closureKind, captured⟩], st.withClosure (kind = .initializer)⟩)

/-- A function that is begun is sound. -/
theorem Sound.beginFunction {bps : List Blueprint} {b : Builder} (h : Sound bps b) (name : String)
    (kind : FunctionKind) : Sound bps ((b.beginFunction name kind).withDepth 1) where
  tokens := h.tokens
  contexts := by
    refine ⟨⟨⟨?_, ?_⟩, ?_, ?_, ?_⟩, h.contexts⟩
    · show 1 ≤ 256
      decide
    · show 0 ≤ 256
      decide
    · exact .empty _
    · intro l hl
      obtain rfl := List.mem_singleton.1 hl
      exact Nat.zero_le 1
    · intro hdepth
      exact absurd hdepth Nat.one_ne_zero
  linked := ⟨by simp [Builder.withDepth, Builder.beginFunction, FunctionContext.start], h.linked⟩
  rooted := ⟨by simp [Builder.withDepth, Builder.beginFunction, FunctionContext.start], h.rooted⟩
  table := h.table

/-- The function around once a function inside it is finished and kept. -/
theorem Grown.endFunction {bps bps' : List Blueprint} {b b₁ : Builder} {outer : FunctionContext}
    {around : List FunctionContext} {bp : Blueprint} {f : Function} (hb₁ : Sound bps' b₁)
    (hclasses : b₁.classes = b.classes) (henclosing : b₁.enclosing = outer :: around)
    (hraised : ContextsRaised (b.context :: b.enclosing) (outer :: around))
    (hblueprints : bps <+: bps') (hfunctions : b.functions.toList <+: b₁.functions.toList)
    (hf : f.Fits (bps' ++ [bp]) bp) :
    Grown bps b (bps' ++ [bp])
      { b₁ with context := outer, enclosing := around, functions := b₁.functions.push f } [] := by
  have hcontexts := hb₁.contexts.2
  have hlinked := hb₁.linked.2
  have hrooted := hb₁.rooted.2
  rw [henclosing] at hcontexts hlinked hrooted
  cases hraised with
  | cons houter haround =>
    exact {
      sound := {
        tokens := hb₁.tokens
        contexts := hcontexts.mono (by simp)
        linked := hlinked
        rooted := hrooted
        table := by
          rw [Array.toList_push]
          exact hb₁.table.push hf }
      classes := hclasses
      kind := congrArg Function.kind houter.function
      arity := congrArg Function.arity houter.function
      captureCount := congrArg Function.captureCount houter.function
      depth := houter.depth
      enclosing := haround
      captures := houter.captures
      constants := by
        rewrite [Builder.chunk, Builder.chunk, houter.function]
        exact List.prefix_refl _
      code := by
        rw [Builder.chunk, Builder.chunk, houter.function]
        exact .refl _
      blueprints := hblueprints.trans (List.prefix_append _ _)
      functions := by
        rw [Array.toList_push]
        exact hfunctions.trans (List.prefix_append _ _) }

namespace Build

variable {bps bps' : List Blueprint} {b b' : Builder} {u : Unit} {token : Token}

/-- Making a closure of a finished function. -/
theorem emitClosure_closes {b₁ : Builder} {finished outer : FunctionContext}
    {around : List FunctionContext} {bp : Blueprint} {line : Nat} (hb₁ : Sound bps' b₁)
    (hfinished : b₁.context = finished)
    (hclasses : b₁.classes = b.classes) (henclosing : b₁.enclosing = outer :: around)
    (hraised : ContextsRaised (b.context :: b.enclosing) (outer :: around))
    (hblueprints : bps <+: bps') (hfunctions : b.functions.toList <+: b₁.functions.toList)
    (hcaptures : bp.captures = captureKinds (finished :: outer :: around))
    (hmember : bp.isMember = finished.function.kind.isMember)
    (hinit : bp.initializes = decide (finished.function.kind = .initializer))
    (hf : finished.complete.Fits (bps' ++ [bp]) bp)
    (h : Clean (emitClosure finished line) { b₁ with context := outer, enclosing := around } u b') :
    ∃ code, Closes finished.function.kind bps b (bps' ++ [bp]) b' code := by
  unfold emitClosure at h
  obtain ⟨id, b₂, hkeep, h⟩ := h.bind
  obtain ⟨rfl, rfl⟩ := hkeep.of_keepFunction
  obtain ⟨index, b₃, hconstant, h⟩ := h.bind
  obtain ⟨chunk, hadd, rfl⟩ := hconstant.of_constant
  obtain ⟨_, b₄, hemit, h⟩ := h.bind
  obtain rfl := hemit.of_emitWithAt
  have hgrown := Grown.endFunction hb₁ hclasses henclosing hraised hblueprints hfunctions hf
  have hlength := hb₁.table.length_eq
  rw [Array.length_toList] at hlength
  obtain ⟨hnumbered, v, hv, hsame⟩ := Grown.addConstant hgrown.sound hadd fun id hid => by
    rw [← Value.functionRef.inj hid, hlength, List.length_append]
    exact Nat.lt_succ_self _
  obtain rfl : v = .functionRef ⟨b₁.functions.size⟩ :=
    -- The constant found for the function is that function: no other is the same constant.
    hsame.elim id Value.eq_of_sameConstant_functionRef
  rw [forM_array_toList] at h
  obtain ⟨chunk', rfl, hconstants, hcode⟩ := captures_append h
    (Chunk.Appends.addInstruction _ .closure index line)
  have hmade : Grown (bps' ++ [bp]) _ (bps' ++ [bp]) (Builder.withChunk _ chunk') _ :=
    Grown.withChunk hnumbered.sound hcode (hconstants ▸ List.prefix_refl _)
      (hconstants ▸ hnumbered.sound.contexts.1.constants)
  have hkind : finished.function.kind.closureKind = bp.closureKind := by
    rw [Blueprint.closureKind, FunctionKind.closureKind, hmember]
  refine ⟨_, hgrown.trans (hnumbered.trans hmade), ?_, fun S captured st hS hst => ?_⟩
  · cases hraised with
    | cons houter _ => exact houter.locals
  · have hfound : chunk'.constants[index.toNat]? = some (.functionRef ⟨b₁.functions.size⟩) :=
      (congrArg (·[index.toNat]?) hconstants).trans hv
    rw [hkind] at hS ⊢
    rw [← hinit]
    refine .of_runs (.closure hfound ?_ ?_ ?_ ?_) line
    · show (bps' ++ [bp])[b₁.functions.size]? = some bp
      rw [hlength, List.getElem?_concat_length]
    · rw [hmember]
      exact hst.makes
    · rw [hcaptures]
      have hlinked := hb₁.linked.1
      rw [henclosing, hfinished] at hlinked
      exact supplies_of_linked rfl hlinked hS
    · -- Only the captures of a superclass are asked for: a member inherits it from where its class
      -- keeps it.
      intro j capture hcapture hparent
      have hrooted := hb₁.rooted.1
      rw [henclosing, hfinished] at hrooted
      rw [hcaptures, captureKinds_cons, List.getElem?_map, hcapture] at hparent
      rw [hmember]
      have hreceives : Receives finished.function.kind outer.locals S st := hst
      exact hreceives.inherits (hrooted capture (List.mem_of_getElem? hcapture))
        (Option.some.inj hparent)

section

set_option synthInstance.maxSize 512

variable {inner : Phrase → Build Unit} [∀ p, Cumulative (inner p)]

/-- The parameters of a function, up to its body. -/
theorem functionBody_enters {name : String} {kind : FunctionKind} {hasParameters : Bool}
    (hb : Sound bps b)
    (h : Clean (functionBody inner hasParameters) (b.beginFunction name kind) u b') :
    ∃ b₁ ps, Enters bps ((b.beginFunction name kind).withDepth 1) b₁ ps ∧
      Clean (block inner) b₁ u b' := by
  unfold functionBody at h
  obtain ⟨_, _, hbegin, h⟩ := h.bind
  obtain rfl := hbegin.of_beginScope
  have hstart : Enters bps ((b.beginFunction name kind).withDepth 1)
      ((b.beginFunction name kind).withDepth 1) [] :=
    ⟨hb.beginFunction name kind, rfl, rfl, rfl, rfl, rfl, by simp, rfl, rfl, rfl⟩
  have hblock : ∀ {b₁ : Builder} {ps : List Local},
      Enters bps ((b.beginFunction name kind).withDepth 1) b₁ ps →
      Clean (expect .braceBeforeFunction >>= fun _ => block inner) b₁ u b' →
      ∃ b₁ ps, Enters bps ((b.beginFunction name kind).withDepth 1) b₁ ps ∧
        Clean (block inner) b₁ u b' := by
    intro b₁ ps hps h
    obtain ⟨_, _, hbrace, h⟩ := h.bind
    obtain ⟨-, -, rfl⟩ := hbrace.of_expect
    exact ⟨_, ps, hps.take, h⟩
  split at h
  · obtain ⟨_, b₁, hparameters, h⟩ := h.bind
    obtain ⟨ps, hps⟩ := parameters_enter hstart Nat.one_ne_zero hparameters
    exact hblock hps h
  · exact hblock hstart h

omit [∀ p, Cumulative (inner p)] in
/-- **A function is as a blueprint says** if its body declares locals above its callee and its
parameters. -/
theorem fits_of_declares {b₁ b₂ b₃ : Builder} {new old ps : List Local} {code : Code}
    {name : String} {kind : FunctionKind} (hbody : Declares bps b₁ bps' b₂ new old code)
    (hlocals : b₁.context.locals = ps ++ (FunctionContext.start name kind).locals)
    (hfunction : b₁.context.function
      = { Function.empty name kind with arity := b₁.context.function.arity })
    (harity : b₁.context.function.arity.toNat = ps.length)
    (hvalues : ∀ l ∈ ps, SlotKind.ofName l.name = .value) (hreturn : Clean emitReturn b₂ u b₃) :
    ∃ code bp, Grown bps b₁ bps' b₃ code ∧ b₃.context.function.kind = kind ∧
      bp.isMember = kind.isMember ∧ bp.initializes = decide (kind = .initializer) ∧
      bp.captures = captureKinds (b₃.context :: b₃.enclosing) ∧
      b₃.context.complete.Fits bps' bp := by
  -- The body is closed by a return, which leaves from any operands.
  obtain ⟨front, line, hleft, -, -, hleaves⟩ := emitReturn_leaves hbody.grown.sound hreturn
  have hwhole := hbody.grown.trans hleft
  have hraised := hbody.raised
  rw [hlocals] at hraised
  -- The locals are still the parameters above the callee, some of them marked as captured.
  obtain ⟨ps', callees, rfl, hps, hcallees⟩ := hraised.exists_append
  obtain ⟨callee, rest, hcallee, hrest, rfl⟩ := List.forall₂_cons_left_iff.1 hcallees
  obtain rfl := List.forall₂_nil_left_iff.1 hrest
  have hkind : b₃.context.function.kind = kind := by
    rw [hwhole.kind, hfunction]
    rfl
  have hname : callee.name = FunctionContext.receiverName kind := hcallee.name
  have hserves : callee.slot.kind.Serves .value := @serves_value _ [] _ (.inl rfl)
  -- So the code flows from the parameters alone, above the one slot of the callee.
  have hflow : Flow (b₃.env bps') [callee.slot] (.at (ps'.map Local.slot))
      ((code ++ front) ++ [⟨.ret, [], line⟩]) none := by
    have hsuits : Suits true (ps' ++ [callee]) (ps'.map Local.slot ++ [callee.slot]) :=
      Suits.append ⟨Covers.singleton callee, fun _ => rfl⟩ ps'
    rw [List.append_assoc]
    exact ((hbody.flow _ hsuits).rebase.mono (hleft.env_le hbody.grown.sound)
      (Shape.Le.refl _)).append (hleaves _ _ hserves)
  have hcode := hwhole.code
  rw [Builder.chunk, hfunction, ← List.append_assoc] at hcode
  have harity' : b₃.context.complete.arity.toNat = ps'.length := by
    rw [← hps.length_eq, ← harity, ← hwhole.arity]
    rfl
  have hvalues' : ∀ l ∈ ps', SlotKind.ofName l.name = .value := by
    intro l hl
    obtain ⟨l₀, hl₀, hraise⟩ := hps.exists_of_mem hl
    rw [hraise.name]
    exact hvalues l₀ hl₀
  obtain ⟨bp, hcaptures, hmember, hinit, hfits⟩ := Function.Fits.of_flow (f := b₃.context.complete)
    hcode harity' hvalues' (length_captureKinds_cons _ _) hwhole.sound.contexts.1.constants
    (hkind ▸ hname) hflow
  refine ⟨_, bp, hwhole, hkind, ?_, ?_, hcaptures, hfits⟩
  · rw [hmember]
    exact congrArg _ hkind
  · rw [hinit, ← hkind]
    rfl

/-- The code of a function, from behind its parameters to its end. -/
theorem body_fits {b₀ b₁ b₂ b₃ : Builder} {ps : List Local} {name : String} {kind : FunctionKind}
    (hdeclaration : EmitsDeclaration (inner .declaration))
    (henters : Enters bps ((b₀.beginFunction name kind).withDepth 1) b₁ ps)
    (hscoped : Scoped (b₀.beginFunction name kind)) (hblock : Clean (block inner) b₁ u b₂)
    (hreturn : Clean emitReturn b₂ u b₃) :
    ∃ bps' code bp, Grown bps b₁ bps' b₃ code ∧ b₃.context.function.kind = kind ∧
      bp.isMember = kind.isMember ∧ bp.initializes = decide (kind = .initializer) ∧
      bp.captures = captureKinds (b₃.context :: b₃.enclosing) ∧
      b₃.context.complete.Fits bps' bp := by
  have hscoped₁ : Scoped b₁ := by
    intro hsuper
    rw [henters.classes] at hsuper
    rw [henters.enclosing]
    obtain ⟨hself, hderived⟩ := hscoped hsuper
    refine ⟨hself.mono (fun l hl => ⟨l, henters.locals ▸ List.mem_append_right ps hl, rfl⟩)
      (ContextsRaised.refl _), ?_⟩
    have hkind : b₁.context.function.kind = kind := by
      rw [henters.function]
      rfl
    refine hderived.with hkind ?_ (ContextsRaised.refl _)
    -- Parameters are plain, and the callee is not named like the superclass.
    intro l hl hname
    rw [henters.locals] at hl
    rcases List.mem_append.1 hl with hl | hl
    · exact SlotKind.ne_super_of_ofName (henters.values l hl) hname
    · exact hderived.ne_super l hl hname
  obtain ⟨bps', new, old, code, hbody⟩ :=
    block_declares hdeclaration henters.sound hscoped₁ hblock
  exact ⟨bps', fits_of_declares hbody henters.locals henters.function henters.arity henters.values
    hreturn⟩

/-- **A finished function is as a blueprint says, and its closure is what is left of it.** -/
theorem function_closes {name : String} {kind : FunctionKind} {hasParameters : Bool}
    (hdeclaration : EmitsDeclaration (inner .declaration)) (hb : Sound bps b)
    (hscoped : Scoped (b.beginFunction name kind))
    (h : Clean (function inner name kind hasParameters) b u b') :
    ∃ bps' code, Closes kind bps b bps' b' code := by
  unfold function at h
  obtain ⟨line, _, hline, h⟩ := h.bind
  obtain ⟨-, rfl⟩ := hline.of_previousLine
  obtain ⟨_, _, hbegin, h⟩ := h.bind
  obtain rfl := hbegin.of_beginFunction
  obtain ⟨outcome, b₂, hattempt, h⟩ := h.bind
  obtain ⟨finished, b₃, hend, h⟩ := h.bind
  obtain ⟨_, _, hconclude, h⟩ := h.bind
  obtain ⟨rfl, rfl⟩ := hconclude.of_conclude
  obtain ⟨b₁, ps, henters, hblock⟩ := functionBody_enters hb hattempt.attempt_ok
  obtain ⟨b₄, hreturn, rfl, hrestore⟩ := hend.of_endFunction
  obtain ⟨bps', code, bp, hgrown, hkind, hmember, hinit, hcaptures, hfits⟩ :=
    body_fits hdeclaration henters hscoped hblock hreturn
  have henclosing := hgrown.enclosing
  rw [henters.enclosing] at henclosing
  obtain ⟨outer, around, houter, haround, hcontexts⟩ := List.forall₂_cons_left_iff.1 henclosing
  obtain rfl := hrestore outer around hcontexts
  rw [hcontexts] at hcaptures
  have hfunctions := hgrown.functions
  rw [henters.functions] at hfunctions
  obtain ⟨code', hcloses⟩ := emitClosure_closes (b := b) hgrown.sound rfl
    (hgrown.classes.trans henters.classes) hcontexts (.cons houter haround) hgrown.blueprints
    hfunctions hcaptures (hkind ▸ hmember) (hkind ▸ hinit) (hfits.mono (List.prefix_append _ _)) h
  exact ⟨_, code', hkind ▸ hcloses⟩

/-! ## Function declarations -/

/-- The declaration of a function declares its name and leaves its closure there. -/
theorem functionDeclaration_declares (hdeclaration : EmitsDeclaration (inner .declaration)) :
    EmitsDeclaration (functionDeclaration inner) := by
  intro bps b b' u hb hscoped h
  unfold functionDeclaration at h
  obtain ⟨name?, b₁, hname, hrest⟩ := h.bind
  replace hrest := hrest.bind_get
  obtain ⟨_, b₂, hmarked, hrest⟩ := hrest.bind
  obtain ⟨_, b₃, hfunction, hdefine⟩ := hrest.bind
  clear h
  obtain ⟨hkind, hcases⟩ := hname.of_variableName
  have hplain := SlotKind.ofName_of_plain ((Builder.next_plain hb).identifier hkind)
  -- A global is defined once the closure is made; a local is its slot.
  have htaken := Grown.take hb
  rcases hcases with ⟨hdepth, index, chunk, rfl, hadd, rfl⟩ | ⟨hdepth, rfl, hroom, rfl⟩
  · obtain ⟨hgrown, hnames⟩ := Grown.addName htaken.sound hadd
    have hstart := htaken.trans hgrown
    obtain rfl := hmarked.of_markInitialized_zero hdepth
    obtain ⟨bps₁, code, hcloses⟩ := function_closes hdeclaration hstart.sound
      ((hstart.scoped_of_locals rfl hscoped).beginFunction _) hfunction
    have hmade : Emission true bps _ bps₁ b₃ (.at []) code (.at [.operand]) :=
      ⟨hstart.trans hcloses.grown, hcloses.locals,
        fun S hS => hcloses.flow S false .plain (hS.covers.append [.operand]) rfl⟩
    unfold defineVariable at hdefine
    obtain ⟨_, _, hline, hdefine⟩ := hdefine.bind
    obtain ⟨rfl, rfl⟩ := hline.of_previousLine
    obtain rfl := hdefine.of_emitWithAt
    have hnames' := (hcloses.grown.env_le hgrown.sound).constants hnames
    obtain ⟨bps₂, code', he⟩ := hmade.andThen (defineGlobal_emits hmade.grown.sound hnames')
    exact ⟨bps₂, [], _, _, .of_emission he⟩
  · -- The local can be captured by the function before its slot is filled with the closure.
    have hadd := Grown.addLocal htaken.sound b.next.lexeme false hdepth hroom
    obtain rfl := hmarked.of_markInitialized_cons hdepth rfl
    have hmark := Grown.markInitialized hadd.sound hdepth rfl
    have hstart := htaken.trans (hadd.trans hmark)
    have hscoped' := hscoped.addLocal hstart rfl hplain
    obtain ⟨bps₁, code, hcloses⟩ := function_closes hdeclaration hstart.sound
      (hscoped'.beginFunction _) hfunction
    obtain ⟨l, old, hl, hold, hlocals⟩ := List.forall₂_cons_left_iff.1 hcloses.locals
    have hdepth₃ : b₃.context.depth ≠ 0 := hcloses.grown.depth ▸ hdepth
    have hdefine : Clean markInitialized b₃ u b' := hdefine
    obtain rfl := hdefine.of_markInitialized_cons hdepth₃ hlocals
    have hmark' := Grown.markInitialized hcloses.grown.sound hdepth₃ hlocals
    have hgrown := hstart.trans (hcloses.grown.trans hmark')
    rw [List.append_nil code] at hgrown
    refine ⟨bps₁, [{ l with initialized := true }], old, code, hgrown, rfl, hold, ?_, ?_, ?_, ?_⟩
    · intro l' hl'
      rw [List.mem_singleton.1 hl']
      exact hl.depth
    · intro l' hl'
      rw [List.mem_singleton.1 hl']
      exact SlotKind.ne_super_of_ofName ((congrArg SlotKind.ofName hl.name).trans hplain)
    · exact fun hzero => absurd hzero hdepth
    · intro S hS
      have hslot : l.slot = ⟨.value, l.captured⟩ := by
        rw [Local.slot, hl.name, hplain]
      have hcovers := (hS.append [l]).covers
      rw [List.map_singleton, hslot, List.singleton_append, ← hlocals] at hcovers
      show Flow (b₃.env bps₁) S (.at []) code (some (.at [l.slot]))
      rw [hslot]
      exact hcloses.flow S l.captured .plain hcovers rfl

end

end Build

end ScriptVM
