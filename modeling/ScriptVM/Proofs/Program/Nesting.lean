/-
# How deep a program under construction is nested

Blocks, functions and classes lie inside one another, and building may give up at any point inside
them.  Each that is begun is ended on every way out, so a declaration leaves the functions around,
the depth of the current block, the classes around and the locals of before as it found them
(`Builder.Restored`), whether it is accepted or not.

The locals keep to their blocks only if they lie in layers (`FunctionContext.Layered`), which they
do wherever a phrase is begun (`Builder.Begun`).  To see this, two ways of building phrases are
compared that agree where the locals lie in layers: neither can be told from the other (`Restores`).

Main statement: `Builder.Begun.declaration_restores`.
-/
import ScriptVM.Proofs.Program.Functions
import ScriptVM.Proofs.Program.Lexical

namespace ScriptVM

/-! ## Layers -/

/-- The locals lie in layers: the inner ones are at least as deep, and none is deeper than the
current block. -/
structure FunctionContext.Layered (c : FunctionContext) : Prop where
  /-- Depths do not decrease towards the innermost local. -/
  sorted : c.locals.Pairwise fun l outer => outer.depth ≤ l.depth
  /-- No local is deeper than the block. -/
  depth_le : ∀ l ∈ c.locals, l.depth ≤ c.depth

/-- The locals of all functions under construction lie in layers. -/
def Builder.Layered (b : Builder) : Prop :=
  ∀ c ∈ b.contexts, c.Layered

/-- The name and the depth of a local. -/
def Local.place (l : Local) : String × Nat :=
  (l.name, l.depth)

namespace FunctionContext

theorem layered_start (name : String) (kind : FunctionKind) : (start name kind).Layered where
  sorted := List.pairwise_singleton _ _
  depth_le := by simp [start]

/-- Locals keep their layers as long as they keep their places, and the depth does not decrease. -/
theorem Layered.of_places {c c' : FunctionContext} (h : c.Layered)
    (hplaces : c'.locals.map Local.place = c.locals.map Local.place) (hdepth : c.depth ≤ c'.depth) :
    c'.Layered := by
  have hdepths : c'.locals.map Local.depth = c.locals.map Local.depth := by
    have hcongr := congrArg (List.map Prod.snd) hplaces
    rwa [List.map_map, List.map_map] at hcongr
  constructor
  · have hsorted : (c.locals.map Local.depth).Pairwise fun d outer => outer ≤ d :=
      List.pairwise_map.2 h.sorted
    rw [← hdepths] at hsorted
    exact List.pairwise_map.1 hsorted
  · intro l hl
    have hmem : l.depth ∈ c'.locals.map Local.depth := List.mem_map_of_mem hl
    rw [hdepths] at hmem
    obtain ⟨k, hk, heq⟩ := List.mem_map.1 hmem
    exact heq ▸ Nat.le_trans (h.depth_le k hk) hdepth

/-- Raised locals keep their places. -/
theorem places_of_raised {locals locals' : List Local} (h : LocalsRaised locals locals') :
    locals'.map Local.place = locals.map Local.place := by
  induction h with
  | nil => rfl
  | cons hl _ ih =>
    rw [List.map_cons, List.map_cons, ih, Local.place, Local.place, hl.name, hl.depth]

theorem Raised.layered {c c' : FunctionContext} (h : c.Raised c') (hc : c.Layered) : c'.Layered :=
  hc.of_places (places_of_raised h.locals) (Nat.le_of_eq h.depth.symm)

end FunctionContext

/-- Functions whose locals are raised keep their layers. -/
theorem ContextsRaised.layered {contexts contexts' : List FunctionContext}
    (h : ContextsRaised contexts contexts') (hc : ∀ c ∈ contexts, c.Layered) :
    ∀ c ∈ contexts', c.Layered := by
  induction h with
  | nil => exact hc
  | cons hraised _ ih =>
    intro c hmem
    rcases List.mem_cons.1 hmem with rfl | hmem
    · exact hraised.layered (hc _ List.mem_cons_self)
    · exact ih (fun c h => hc c (List.mem_cons_of_mem _ h)) c hmem

namespace Builder

theorem layered_iff {b : Builder} :
    b.Layered ↔ b.context.Layered ∧ ∀ c ∈ b.enclosing, c.Layered :=
  List.forall_mem_cons

theorem layered_start (functions : Array Function) (source : String) (items : List ScanItem) :
    (start functions source items).Layered :=
  layered_iff.2 ⟨FunctionContext.layered_start _ _, by simp [start]⟩

/-! ## Nesting -/

/-- A builder is found inside the function of another, some blocks further in and in these classes.
What is said about the functions around stays, but for more variables that are captured. -/
structure Within (b : Builder) (further : Nat) (classes : List ClassContext) (b' : Builder) :
    Prop where
  /-- The function at hand has the same name. -/
  name : b'.context.function.name = b.context.function.name
  /-- The function at hand is of the same kind. -/
  kind : b'.context.function.kind = b.context.function.kind
  /-- The block is so much deeper. -/
  depth : b'.context.depth = b.context.depth + further
  /-- The function at hand captures at least what it did. -/
  captures : b.context.captures.toList <+: b'.context.captures.toList
  /-- The functions around are the same, but for what is captured. -/
  enclosing : ContextsRaised b.enclosing b'.enclosing
  /-- These are the classes around. -/
  classes : b'.classes = classes
  /-- If the locals lay in layers, the outer ones are those of before, and all lie in layers. -/
  locals : b.Layered →
    b.context.locals.map Local.place <:+ b'.context.locals.map Local.place ∧ b'.Layered

/-- The nesting is as it was. -/
abbrev Restored (b b' : Builder) : Prop :=
  b.Within 0 b.classes b'

/-- What is restored within a construct and then restored again is restored within it. -/
theorem Within.trans {b b' b'' : Builder} {further : Nat} {classes : List ClassContext}
    (h₁ : b.Within further classes b') (h₂ : b'.Restored b'') : b.Within further classes b'' where
  name := h₂.name.trans h₁.name
  kind := h₂.kind.trans h₁.kind
  depth := h₂.depth.trans h₁.depth
  captures := h₁.captures.trans h₂.captures
  enclosing := h₁.enclosing.trans h₂.enclosing
  classes := h₂.classes.trans h₁.classes
  locals h := by
    obtain ⟨hlocals, hlayered⟩ := h₁.locals h
    obtain ⟨hlocals', hlayered'⟩ := h₂.locals hlayered
    exact ⟨hlocals.trans hlocals', hlayered'⟩

namespace Restored

variable {b b' : Builder}

/-- A builder with the same functions and classes is restored. -/
theorem of_eq (hcontexts : b'.contexts = b.contexts) (hclasses : b'.classes = b.classes) :
    b.Restored b' := by
  obtain ⟨hcontext, henclosing⟩ := List.cons.inj hcontexts
  constructor
  · rw [hcontext]
  · rw [hcontext]
  · rw [hcontext]
    rfl
  · exact hcontext ▸ List.prefix_refl _
  · rw [henclosing]
    exact ContextsRaised.refl _
  · exact hclasses
  · intro h
    rw [hcontext]
    refine ⟨List.suffix_refl _, ?_⟩
    rwa [Layered, hcontexts]

theorem refl (b : Builder) : b.Restored b :=
  of_eq rfl rfl

/-- The functions may capture more. -/
theorem of_raised {context : FunctionContext} {enclosing : List FunctionContext}
    (hcontext : b.context.Raised context) (henclosing : ContextsRaised b.enclosing enclosing) :
    b.Restored { b with context, enclosing } where
  name := congrArg Function.name hcontext.function
  kind := congrArg Function.kind hcontext.function
  depth := hcontext.depth
  captures := hcontext.captures
  enclosing := henclosing
  classes := rfl
  locals h := by
    obtain ⟨hc, haround⟩ := layered_iff.1 h
    refine ⟨?_, layered_iff.2 ⟨hcontext.layered hc, henclosing.layered haround⟩⟩
    show _ <:+ context.locals.map Local.place
    exact FunctionContext.places_of_raised hcontext.locals ▸ List.suffix_refl _

/-- The function at hand may change in what has nothing to do with nesting. -/
theorem of_context {context : FunctionContext}
    (hname : context.function.name = b.context.function.name)
    (hkind : context.function.kind = b.context.function.kind)
    (hdepth : context.depth = b.context.depth) (hcaptures : context.captures = b.context.captures)
    (hlocals : b.context.Layered →
      b.context.locals.map Local.place <:+ context.locals.map Local.place ∧ context.Layered) :
    b.Restored { b with context } where
  name := hname
  kind := hkind
  depth := hdepth
  captures := by
    show _ <+: context.captures.toList
    exact hcaptures ▸ List.prefix_refl _
  enclosing := ContextsRaised.refl _
  classes := rfl
  locals h := by
    obtain ⟨hc, haround⟩ := layered_iff.1 h
    exact ⟨(hlocals hc).1, layered_iff.2 ⟨(hlocals hc).2, haround⟩⟩

/-- The function at hand may get other code. -/
theorem of_function {function : Function} (hname : function.name = b.context.function.name)
    (hkind : function.kind = b.context.function.kind) :
    b.Restored { b with context := { b.context with function } } :=
  of_context hname hkind rfl rfl fun h => ⟨List.suffix_refl _, h.of_places rfl (Nat.le_refl _)⟩

/-- A new local is as deep as the current block. -/
theorem addLocal (name : String) :
    b.Restored { b with context := { b.context with
      locals := ⟨name, b.context.depth, false, false⟩ :: b.context.locals } } :=
  .of_context rfl rfl rfl rfl fun h => by
    refine ⟨List.suffix_cons _ _, List.pairwise_cons.2 ⟨h.depth_le, h.sorted⟩, fun l hl => ?_⟩
    rcases List.mem_cons.1 hl with rfl | hl
    · exact Nat.le_refl _
    · exact h.depth_le l hl

end Restored

end Builder

/-! ## Looking names up -/

/-- Capturing another variable raises nothing. -/
theorem FunctionContext.raised_addCapture (c : FunctionContext) (capture : Capture) :
    c.Raised (c.addCapture capture).2 := by
  rw [addCapture]
  split
  · exact .refl c
  · split
    · next hroom =>
      refine ⟨rfl, rfl, LocalsRaised.refl _, by simp, fun _ => ?_⟩
      rw [Array.size_push]
      omega
    · exact .refl c

/-- Looking a name up only lets functions capture more, whether it is found or not. -/
theorem raised_resolveCapture (name : String) (context : FunctionContext)
    (enclosing : List FunctionContext) :
    context.Raised (resolveCapture name context enclosing).context ∧
      ContextsRaised enclosing (resolveCapture name context enclosing).enclosing := by
  induction enclosing generalizing context with
  | nil => exact ⟨.refl _, .nil⟩
  | cons outer rest ih =>
    rw [resolveCapture]
    split
    · exact ⟨.refl _, ContextsRaised.refl _⟩
    · exact ⟨context.raised_addCapture _,
        .cons (outer.raised_markCaptured _) (ContextsRaised.refl _)⟩
    · obtain ⟨houter, hrest⟩ := ih outer
      dsimp only
      split
      · exact ⟨.refl _, .cons houter hrest⟩
      · exact ⟨.refl _, .cons houter hrest⟩
      · exact ⟨context.raised_addCapture _, .cons houter hrest⟩

namespace Build

variable {α β : Type}

/-! ## Steps that restore the nesting -/

/-- Two steps that do the same where the locals lie in layers, and restore the nesting. -/
class Restores (x y : Build α) : Prop where
  /-- They do the same. -/
  agree : ∀ b, b.Layered → x b = y b
  /-- The nesting is restored. -/
  restored : ∀ b : Builder, b.Restored (after x b)

theorem Restores.left {x y : Build α} (h : Restores x y) : Restores x x :=
  ⟨fun _ _ => rfl, h.restored⟩

theorem Restores.layered {x y : Build α} (h : Restores x y) {b : Builder} (hb : b.Layered) :
    (after x b).Layered :=
  ((h.restored b).locals hb).2

theorem restored_after (x : Build α) [Restores x x] (b : Builder) : b.Restored (after x b) :=
  Restores.restored x b

theorem after_congr {x y : Build α} {b c : Builder} (h : x b = y c) : after x b = after y c := by
  rw [after, after, h]

/-- What a sequence leaves behind is what its second part leaves, or its first part if that
fails. -/
theorem after_bind {x : Build α} {f : α → Build β} (b : Builder) :
    (∃ a b₁, x b = .ok a b₁ ∧ after (x >>= f) b = after (f a) b₁) ∨
      (∃ e b₁, x b = .error e b₁ ∧ after (x >>= f) b = b₁) := by
  rcases h : x b with ⟨a, b₁⟩ | ⟨e, b₁⟩
  · exact .inl ⟨a, b₁, rfl, by rw [after, after, bind_of_ok h]⟩
  · exact .inr ⟨e, b₁, rfl, after_of_error (bind_of_error h)⟩

/-- Steps that restore do so one behind the other. -/
theorem Restores.bind {x x' : Build α} {f f' : α → Build β} (hx : Restores x x')
    (hf : ∀ a, Restores (f a) (f' a)) : Restores (x >>= f) (x' >>= f') where
  agree b hb := by
    have hagree := hx.agree b hb
    have hlayered := hx.layered hb
    rcases h : x b with ⟨a, b₁⟩ | ⟨e, b₁⟩
    · rw [after_of_ok h] at hlayered
      rw [bind_of_ok h, bind_of_ok (hagree ▸ h), (hf a).agree b₁ hlayered]
    · rw [bind_of_error h, bind_of_error (hagree ▸ h)]
  restored b := by
    have hrestored := hx.restored b
    rcases after_bind (x := x) (f := f) b with ⟨a, b₁, h, hafter⟩ | ⟨e, b₁, h, hafter⟩
    · rw [after_of_ok h] at hrestored
      rw [hafter]
      exact hrestored.trans ((hf a).restored b₁)
    · rwa [hafter, ← after_of_error h]

instance (x x' : Build α) (f f' : α → Build β) [Restores x x'] [∀ a, Restores (f a) (f' a)] :
    Restores (x >>= f) (x' >>= f') :=
  .bind inferInstance inferInstance

theorem restores_of_after {x : Build α} (h : ∀ b : Builder, b.Restored (after x b)) :
    Restores x x :=
  ⟨fun _ _ => rfl, h⟩

theorem restores_modify {f : Builder → Builder} (h : ∀ b : Builder, b.Restored (f b)) :
    Restores (modify f : Build Unit) (modify f) :=
  restores_of_after h

instance (a : α) : Restores (pure a : Build α) (pure a) := restores_of_after fun b => .refl b

instance : Restores (get : Build Builder) get := restores_of_after fun b => .refl b

instance (e : CompileError) : Restores (throw e : Build α) (throw e) :=
  restores_of_after fun b => .refl b

instance (token : Token) (kind : ErrorKind) :
    Restores (fail token kind : Build α) (fail token kind) :=
  restores_of_after fun b => .refl b

instance (f : α → β) (x y : Build α) [Restores x y] : Restores (f <$> x) (f <$> y) where
  agree b hb := by
    show EStateM.map f x b = EStateM.map f y b
    rw [EStateM.map, EStateM.map, Restores.agree (x := x) (y := y) b hb]
  restored b := by
    have hmap : after (f <$> x) b = after x b := by
      show after (EStateM.map f x) b = after x b
      rw [after, after, EStateM.map]
      cases x b <;> rfl
    rw [hmap]
    exact Restores.restored y b

instance (c : Prop) [Decidable c] (x x' y y' : Build α) [Restores x x'] [Restores y y'] :
    Restores (if c then x else y) (if c then x' else y') := by
  split <;> infer_instance

instance (e : CompileError) : Restores (note e) (note e) :=
  restores_modify fun _ => .of_eq rfl rfl

instance (token : Token) (kind : ErrorKind) : Restores (noteAt token kind) (noteAt token kind) :=
  restores_of_after fun _ => .of_eq rfl rfl

instance (outcome : Except CompileError α) : Restores (conclude outcome) (conclude outcome) := by
  cases outcome <;> (unfold conclude; infer_instance)

instance (token : Token) (outcome : Except ErrorKind α) :
    Restores (orFailAt token outcome) (orFailAt token outcome) := by
  cases outcome <;> (unfold orFailAt; infer_instance)

theorem after_attempt (x : Build α) (b : Builder) : after (attempt x) b = after x b := by
  rw [after, after, attempt]
  cases x b <;> rfl

instance (x y : Build α) [Restores x y] : Restores (attempt x) (attempt y) where
  agree b hb := by rw [attempt, attempt, Restores.agree (x := x) (y := y) b hb]
  restored b := by
    rw [after_attempt]
    exact Restores.restored y b

/-! ## Tokens -/

instance : Restores peek peek := restores_of_after fun _ => .of_eq rfl rfl

instance : Restores advance advance := by
  unfold advance
  refine .bind inferInstance fun token => ?_
  exact .bind (restores_modify fun _ => .of_eq rfl rfl) fun _ => inferInstance

instance (kind : TokenKind) : Restores (check kind) (check kind) := by
  unfold check
  infer_instance

instance (kind : TokenKind) : Restores (atEnd kind) (atEnd kind) := by
  unfold atEnd
  infer_instance

instance (kind : TokenKind) : Restores (accept kind) (accept kind) := by
  unfold accept
  infer_instance

instance (canAssign : Bool) :
    Restores (acceptAssignment canAssign) (acceptAssignment canAssign) := by
  unfold acceptAssignment
  infer_instance

instance (what : Expectation) : Restores (expect what) (expect what) := by
  unfold expect
  infer_instance

instance (round round' : Build Bool) [Restores round round'] (items : List ScanItem) :
    Restores (repeatOver round items) (repeatOver round' items) := by
  induction items with
  | nil =>
    unfold repeatOver
    infer_instance
  | cons _ rest ih =>
    unfold repeatOver
    infer_instance

instance (round round' : Build Bool) [Restores round round'] :
    Restores (repeatWhile round) (repeatWhile round') := by
  unfold repeatWhile
  infer_instance

/-! ## Code and variables -/

/-- A step that changes the function at hand in what has nothing to do with nesting. -/
theorem restores_modifyContext {f : FunctionContext → FunctionContext}
    (h : ∀ b : Builder, b.Restored { b with context := f b.context }) :
    Restores (modifyContext f) (modifyContext f) :=
  restores_modify h

instance : Restores previousLine previousLine := by
  unfold previousLine
  infer_instance

instance (f : Chunk → Chunk) : Restores (modifyChunk f) (modifyChunk f) :=
  restores_modifyContext fun _ => .of_function rfl rfl

instance : Restores codeSize codeSize := by
  unfold codeSize
  infer_instance

instance (op : Opcode) (line : Nat) : Restores (emitAt op line) (emitAt op line) := by
  unfold emitAt
  infer_instance

instance (op : Opcode) : Restores (emit op) (emit op) := by
  unfold emit
  infer_instance

instance (op : Opcode) (operand : UInt8) (line : Nat) :
    Restores (emitWithAt op operand line) (emitWithAt op operand line) := by
  unfold emitWithAt
  infer_instance

instance (byte : UInt8) (line : Nat) : Restores (emitByteAt byte line) (emitByteAt byte line) := by
  unfold emitByteAt
  infer_instance

instance : Restores emitReturn emitReturn := by
  unfold emitReturn
  infer_instance

instance (op : Opcode) (line : Nat) : Restores (emitJump op line) (emitJump op line) := by
  unfold emitJump
  infer_instance

instance (outcome : Except JumpError Chunk) : Restores (setChunk outcome) (setChunk outcome) := by
  cases outcome <;> (unfold setChunk; infer_instance)

instance (offset : Nat) : Restores (patchJump offset) (patchJump offset) := by
  unfold patchJump
  infer_instance

instance (start line : Nat) : Restores (emitLoop start line) (emitLoop start line) := by
  unfold emitLoop
  infer_instance

instance (token : Token) (value : Value) :
    Restores (constantAt token value) (constantAt token value) := by
  unfold constantAt
  refine .bind inferInstance fun b => .bind inferInstance fun _ => ?_
  split <;> infer_instance

instance (value : Value) : Restores (constant value) (constant value) := by
  unfold constant
  infer_instance

instance (name : Token) : Restores (nameConstant name) (nameConstant name) := by
  unfold nameConstant
  infer_instance

instance (name : String) (token : Token) : Restores (addLocal name token) (addLocal name token) :=
  restores_of_after fun b => by
    have hrun : addLocal name token b =
        (orFailAt token (b.context.addLocal name) >>= fun context =>
          modifyContext fun _ => context) b := rfl
    rw [FunctionContext.addLocal] at hrun
    split at hrun
    · rw [after_of_ok hrun]
      exact .addLocal name
    · rw [after_of_error hrun]
      exact .refl b

instance (name : Token) : Restores (declareVariable name) (declareVariable name) := by
  unfold declareVariable
  infer_instance

instance : Restores markInitialized markInitialized :=
  restores_modifyContext fun b => by
    refine .of_context ?_ ?_ ?_ ?_ fun h => ?_
    all_goals rw [FunctionContext.markInitialized]
    case refine_5 =>
      split
      · next l rest _ hlocals =>
        have hplaces : (({ l with initialized := true } : Local) :: rest).map Local.place =
            b.context.locals.map Local.place := by
          rw [hlocals]
          rfl
        exact ⟨hplaces ▸ List.suffix_refl _, h.of_places hplaces (Nat.le_refl _)⟩
      · exact ⟨List.suffix_refl _, h⟩
    all_goals split <;> rfl

instance (name? : Option UInt8) : Restores (defineVariable name?) (defineVariable name?) := by
  cases name? <;> (unfold defineVariable; infer_instance)

instance : Restores variableName variableName := by
  unfold variableName
  infer_instance

instance (token : Token) : Restores (resolve token) (resolve token) :=
  restores_of_after fun b => by
    have hraised := raised_resolveCapture token.lexeme b.context b.enclosing
    cases hlocal : b.context.resolveLocal token.lexeme with
    | error kind =>
      rw [after, resolve_of_error token hlocal]
      exact .refl b
    | ok slot? =>
      cases slot? with
      | some slot =>
        rw [after, resolve_of_some token hlocal]
        exact .refl b
      | none =>
        have hfound := Builder.Restored.of_raised hraised.1 hraised.2
        have hrun := resolve_of_none token hlocal
        generalize resolveCapture token.lexeme b.context b.enclosing = found at hfound hrun
        obtain ⟨index, context, enclosing⟩ := found
        rcases index with kind | _ | index
        · rw [after_of_error hrun]
          exact hfound
        · -- The name becomes a constant.
          let access : Build Access := do
            return ⟨.getGlobal, .setGlobal, ← nameConstant token⟩
          have haccess : Restores access access := inferInstance
          rw [after, hrun]
          exact hfound.trans (haccess.restored _)
        · rw [after_of_ok hrun]
          exact hfound

instance (token : Token) : Restores (readVariable token) (readVariable token) := by
  unfold readVariable
  infer_instance

instance {γ : Type} (xs : List γ) (f : γ → Build PUnit) [∀ x, Restores (f x) (f x)] :
    Restores (xs.forM f) (xs.forM f) := by
  induction xs with
  | nil => exact inferInstanceAs (Restores (pure _) (pure _))
  | cons x rest ih =>
    exact inferInstanceAs (Restores (f x >>= fun _ => rest.forM f) (f x >>= fun _ => rest.forM f))

instance {γ : Type} (xs : Array γ) (f : γ → Build PUnit) [∀ x, Restores (f x) (f x)] :
    Restores (xs.forM f) (xs.forM f) := by
  rw [forM_array_toList]
  infer_instance

/-! ## Blocks -/

end Build

namespace Builder

/-- The builder one block further in. -/
def deepened (b : Builder) : Builder :=
  b.withDepth (b.context.depth + 1)

theorem layered_deepened {b : Builder} (h : b.Layered) : b.deepened.Layered := by
  obtain ⟨hcontext, henclosing⟩ := layered_iff.1 h
  exact layered_iff.2 ⟨hcontext.of_places rfl (Nat.le_succ _), henclosing⟩

/-- One block further in, what holds of the locals of before still does. -/
theorem Within.deepened {b b' : Builder} {further : Nat} {classes : List ClassContext}
    (h : b.Within further classes b') : b.Within (further + 1) classes b'.deepened where
  name := h.name
  kind := h.kind
  depth := congrArg (· + 1) h.depth
  captures := h.captures
  enclosing := h.enclosing
  classes := h.classes
  locals hb := (h.locals hb).imp_right layered_deepened

end Builder

/-- Where no outer local is deeper than a block, the outer locals stay when those deeper are
dropped. -/
theorem Local.suffix_dropWhile {places : List (String × Nat)} {locals : List Local} {depth : Nat}
    (hplaces : places <:+ locals.map Local.place) (hdepth : ∀ p ∈ places, p.2 ≤ depth) :
    places <:+ (locals.dropWhile (depth < ·.depth)).map Local.place := by
  induction locals with
  | nil => simpa using hplaces
  | cons l rest ih =>
    rw [List.dropWhile_cons]
    split
    · next hdeep =>
      rw [List.map_cons] at hplaces
      rcases List.suffix_cons_iff.1 hplaces with rfl | hrest
      · have hle : l.depth ≤ depth := hdepth l.place List.mem_cons_self
        exact absurd (of_decide_eq_true hdeep) (Nat.not_lt.2 hle)
      · exact ih hrest
    · exact hplaces

/-- Once the locals deeper than a block are dropped, the others lie in layers. -/
theorem FunctionContext.Layered.dropWhile {c : FunctionContext} (h : c.Layered) (depth : Nat) :
    ({ c with locals := c.locals.dropWhile (depth < ·.depth), depth } :
      FunctionContext).Layered := by
  have hsorted := h.sorted.sublist (List.dropWhile_sublist (depth < ·.depth))
  refine ⟨hsorted, fun l hl => ?_⟩
  show l.depth ≤ depth
  dsimp only at hl
  cases hrest : c.locals.dropWhile (depth < ·.depth) with
  | nil => simp [hrest] at hl
  | cons first rest =>
    have hfirst : ¬ (depth < first.depth) := by
      have hne : c.locals.dropWhile (depth < ·.depth) ≠ [] := by simp [hrest]
      have hhead := List.head_dropWhile_not (fun l : Local => decide (depth < l.depth)) hne
      simpa [hrest] using hhead
    rw [hrest] at hl hsorted
    rcases List.mem_cons.1 hl with rfl | hl
    · exact Nat.not_lt.1 hfirst
    · exact Nat.le_trans ((List.pairwise_cons.1 hsorted).1 l hl) (Nat.not_lt.1 hfirst)

namespace Build

variable {α β : Type}

/-- Closing a scope drops its locals and leaves the others. -/
theorem endScope_run (b : Builder) :
    endScope b = ((b.context.locals.takeWhile (b.context.depth - 1 < ·.depth)).forM fun l =>
        emitAt (dropOp l) b.previous.line)
      ((b.withDepth (b.context.depth - 1)).withLocals
        (b.context.locals.dropWhile (b.context.depth - 1 < ·.depth))) := by
  have hdrop : ∀ (p : Local → Bool) (locals : List Local),
      locals.drop (locals.takeWhile p).length = locals.dropWhile p := by
    intro p locals
    calc locals.drop (locals.takeWhile p).length
        = (locals.takeWhile p ++ locals.dropWhile p).drop (locals.takeWhile p).length := by
          rw [List.takeWhile_append_dropWhile]
      _ = locals.dropWhile p := List.drop_left
  rw [← hdrop]
  rfl

/-- **A block that ends is left as it was found.** -/
theorem restored_endScope {b b' : Builder} {classes : List ClassContext}
    (h : b.Within 1 classes b') : b.Within 0 classes (after endScope b') := by
  have hdepth : b'.context.depth - 1 = b.context.depth := by
    rw [h.depth]
    rfl
  have hended : b.Within 0 classes ((b'.withDepth (b'.context.depth - 1)).withLocals
      (b'.context.locals.dropWhile (b'.context.depth - 1 < ·.depth))) := by
    refine ⟨h.name, h.kind, hdepth, h.captures, h.enclosing, h.classes, fun hb => ?_⟩
    obtain ⟨hplaces, hlayered⟩ := h.locals hb
    obtain ⟨hcontext, henclosing⟩ := Builder.layered_iff.1 hlayered
    refine ⟨Local.suffix_dropWhile hplaces fun p hp => ?_,
      Builder.layered_iff.2 ⟨hcontext.dropWhile _, henclosing⟩⟩
    obtain ⟨l, hl, rfl⟩ := List.mem_map.1 hp
    rw [hdepth]
    exact (Builder.layered_iff.1 hb).1.depth_le l hl
  rw [after_congr (endScope_run b')]
  exact hended.trans (restored_after _ _)

/-! ## What is begun and ended -/

/-- Two steps that do the same where the locals lie in layers, and keep them so. -/
structure Alike (x y : Build α) : Prop where
  /-- They do the same. -/
  agree : ∀ b, b.Layered → x b = y b
  /-- The locals still lie in layers. -/
  layered : ∀ b, b.Layered → (after x b).Layered

theorem Alike.of_restores {x y : Build α} (h : Restores x y) : Alike x y :=
  ⟨h.agree, fun _ => h.layered⟩

/-- Steps that leave the same behind do so one behind the other. -/
theorem Alike.bind {x x' : Build α} {f f' : α → Build β} (hx : Alike x x')
    (hf : ∀ a, Alike (f a) (f' a)) : Alike (x >>= f) (x' >>= f') where
  agree b hb := by
    have hagree := hx.agree b hb
    have hlayered := hx.layered b hb
    rcases h : x b with ⟨a, b₁⟩ | ⟨e, b₁⟩
    · rw [after_of_ok h] at hlayered
      rw [bind_of_ok h, bind_of_ok (hagree ▸ h), (hf a).agree b₁ hlayered]
    · rw [bind_of_error h, bind_of_error (hagree ▸ h)]
  layered b hb := by
    have hlayered := hx.layered b hb
    rcases after_bind (x := x) (f := f) b with ⟨a, b₁, h, hafter⟩ | ⟨e, b₁, h, hafter⟩
    · rw [after_of_ok h] at hlayered
      rw [hafter]
      exact (hf a).layered b₁ hlayered
    · rwa [hafter, ← after_of_error h]

theorem Alike.modify {f : Builder → Builder} (h : ∀ b, b.Layered → (f b).Layered) :
    Alike (modify f : Build Unit) (modify f) :=
  ⟨fun _ _ => rfl, h⟩

/-- A step that is tried never fails, and leaves behind what the step does. -/
theorem attempt_ok (x : Build α) (b : Builder) :
    ∃ outcome, attempt x b = .ok outcome (after x b) := by
  rw [attempt, after]
  cases x b with
  | ok a b' => exact ⟨_, rfl⟩
  | error e b' => exact ⟨_, rfl⟩

/-- **Something is begun, a step is tried inside it, and it is ended on every way out.**  What the
step leaves inside has to be such that ending restores the nesting. -/
theorem restores_bracket {γ : Type} {s : Builder → Builder} {x y : Build α} {z : Build γ}
    {k k' : Except CompileError α → γ → Build β} {W : Builder → Builder → Prop}
    (hbegin : ∀ b, b.Layered → (s b).Layered) (hxy : Alike x y)
    (hinside : ∀ b, W b (after x (s b))) (hend : ∀ b b', W b b' → b.Restored (after z b'))
    (hk : ∀ outcome c, Restores (k outcome c) (k' outcome c)) :
    Restores (modify s >>= fun _ => attempt x >>= fun outcome => z >>= fun c => k outcome c)
      (modify s >>= fun _ => attempt y >>= fun outcome => z >>= fun c => k' outcome c) where
  agree b hb := by
    show (attempt x >>= fun outcome => z >>= fun c => k outcome c) (s b) =
      (attempt y >>= fun outcome => z >>= fun c => k' outcome c) (s b)
    obtain ⟨outcome, hx⟩ := attempt_ok x (s b)
    have hy : attempt y (s b) = .ok outcome (after x (s b)) := by
      rw [← hx, attempt, attempt, hxy.agree _ (hbegin b hb)]
    rw [bind_of_ok hx, bind_of_ok hy]
    have hrestored := hend b _ (hinside b)
    rcases hz : z (after x (s b)) with ⟨c, b'⟩ | ⟨e, b'⟩
    · rw [after_of_ok hz] at hrestored
      rw [bind_of_ok hz, bind_of_ok hz, (hk outcome c).agree b' (hrestored.locals hb).2]
    · rw [bind_of_error hz, bind_of_error hz]
  restored b := by
    show b.Restored (after (attempt x >>= fun outcome => z >>= fun c => k outcome c) (s b))
    obtain ⟨outcome, hx⟩ := attempt_ok x (s b)
    rw [after_congr (bind_of_ok hx)]
    have hrestored := hend b _ (hinside b)
    rcases after_bind (x := z) (f := k outcome) (after x (s b)) with
      ⟨c, b', hz, hafter⟩ | ⟨e, b', hz, hafter⟩
    · rw [after_of_ok hz] at hrestored
      rw [hafter]
      exact hrestored.trans ((hk outcome c).restored b')
    · rwa [hafter, ← after_of_error hz]

/-- A block. -/
instance (x y : Build Unit) [Restores x y] : Restores (inScope x) (inScope y) :=
  restores_bracket (s := Builder.deepened) (W := fun b b' => b.Within 1 b.classes b')
    (fun _ => Builder.layered_deepened) (.of_restores inferInstance)
    (fun b => (Builder.Restored.refl b).deepened.trans (Restores.restored (x := x) y b.deepened))
    (fun _ _ => restored_endScope) fun _ _ => inferInstance

/-! ## Functions -/

instance (finished : FunctionContext) :
    Restores (keepFunction finished) (keepFunction finished) := by
  unfold keepFunction
  refine .bind inferInstance fun b => ?_
  exact .bind (restores_modify fun _ => .of_eq rfl rfl) fun _ => inferInstance

instance (finished : FunctionContext) (line : Nat) :
    Restores (emitClosure finished line) (emitClosure finished line) := by
  unfold emitClosure
  infer_instance

/-- The end of a function changes nothing but its code. -/
theorem exists_emitReturn (b : Builder) :
    ∃ context, emitReturn b = .ok () { b with context } := by
  have hrun : emitReturn b =
      (if b.context.function.kind = .initializer then
        emitWithAt .getLocal 0 b.previous.line >>= fun _ => emitAt .ret b.previous.line
      else emitAt .pushNil b.previous.line >>= fun _ => emitAt .ret b.previous.line) b := rfl
  rw [hrun]
  split <;> exact ⟨_, rfl⟩

/-- The builder outside the innermost function. -/
def outside (b : Builder) : Builder :=
  match b.enclosing with
  | outer :: rest => { b with context := outer, enclosing := rest }
  | [] => b

/-- **A function that ends is left for the one around it.** -/
theorem restored_endFunction {name : String} {kind : FunctionKind} {b b' : Builder}
    (h : (b.beginFunction name kind).Within 1 b.classes b') :
    b.Restored (after endFunction b') := by
  obtain ⟨context, hreturn⟩ := exists_emitReturn b'
  generalize { b' with context } = b₁ at hreturn
  have hinside := h.trans (after_of_ok hreturn ▸ restored_after emitReturn b')
  have hafter : after endFunction b' = outside b₁ := by
    unfold endFunction
    rw [after_congr (bind_of_ok hreturn)]
    rfl
  have henclosing : ContextsRaised (b.context :: b.enclosing) b₁.enclosing := hinside.enclosing
  rw [hafter, outside]
  generalize haround : b₁.enclosing = around at henclosing
  cases henclosing with
  | cons houter hrest =>
    exact (Builder.Restored.of_raised houter hrest).trans (.of_eq rfl hinside.classes)

/-- What a step does in a block of its own. -/
theorem within_block {f : PUnit → Build α} (hf : ∀ u, Restores (f u) (f u)) (b : Builder) :
    b.Within 1 b.classes (after (beginScope >>= f) b) :=
  (Builder.Restored.refl b).deepened.trans ((hf ⟨⟩).restored b.deepened)

theorem alike_beginScope : Alike beginScope beginScope :=
  .modify fun _ => Builder.layered_deepened

/-! ## Classes -/

end Build

namespace Builder

/-- How a builder may be found inside the body of a class that another has begun: in the same block
if the class has no superclass, and in the scope of the superclass if it has one. -/
inductive InBody (b b' : Builder) : Prop where
  /-- No superclass has been read. -/
  | plain (h : b.Within 0 (⟨false⟩ :: b.classes) b')
  /-- The superclass lives in a scope of its own. -/
  | derived (h : b.Within 1 (⟨true⟩ :: b.classes) b')

/-- What is restored in the body of a class is restored with it. -/
theorem InBody.trans {b b₁ b₂ : Builder} (h₁ : b.InBody b₁) (h₂ : b₁.Restored b₂) :
    b.InBody b₂ := by
  cases h₁ with
  | plain h => exact .plain (h.trans h₂)
  | derived h => exact .derived (h.trans h₂)

/-- The classes have nothing to do with the rest of the nesting. -/
theorem Within.withClasses {b b' : Builder} {further : Nat} {classes : List ClassContext}
    (h : b.Within further classes b') (classes' : List ClassContext) :
    b.Within further classes' { b' with classes := classes' } :=
  ⟨h.name, h.kind, h.depth, h.captures, h.enclosing, rfl, h.locals⟩

end Builder

namespace Build

variable {α β : Type}

/-- **A class that ends is left as it was found,** and so is the scope of its superclass. -/
theorem restored_endClass {b b' : Builder} (h : b.InBody b') : b.Restored (after endClass b') := by
  have hrun : endClass b' =
      (if b'.classes.head?.any (·.hasSuperclass) then endScope else pure ())
        { b' with classes := b'.classes.tail } := rfl
  rw [after_congr hrun]
  cases h with
  | plain h =>
    rw [h.classes]
    exact h.withClasses b.classes
  | derived h =>
    rw [h.classes]
    exact restored_endScope (h.withClasses b.classes)

/-- A step in the body of a class that may begin the scope of a superclass. -/
def Opens (x : Build α) : Prop :=
  ∀ b b₁ : Builder, b.Within 0 (⟨false⟩ :: b.classes) b₁ → b.InBody (after x b₁)

/-- A step that opens a scope first does so with any other behind it. -/
theorem Opens.bind {x : Build α} {f : α → Build β} [Restores x x] (hf : ∀ a, Opens (f a)) :
    Opens (x >>= f) := by
  intro b b₁ h
  have hx := h.trans (restored_after x b₁)
  rcases after_bind (x := x) (f := f) b₁ with ⟨a, b₂, hok, hafter⟩ | ⟨e, b₂, herror, hafter⟩
  · rw [after_of_ok hok] at hx
    rw [hafter]
    exact hf a b b₂ hx
  · rw [hafter, ← after_of_error herror]
    exact .plain hx

/-- The builder whose innermost class has a superclass. -/
def derived (b : Builder) : Builder :=
  match b.classes with
  | _ :: rest => { b with classes := ⟨true⟩ :: rest }
  | [] => b

/-- The scope of a superclass is begun, and the class is noted to have one. -/
theorem opens_superScope {f : PUnit → Build α} [∀ u, Restores (f u) (f u)] :
    Opens (beginScope >>= fun _ => markSuperclass >>= f) := by
  intro b b₁ h
  have hmark : (beginScope >>= fun _ => markSuperclass >>= f) b₁ = f ⟨⟩ (derived b₁.deepened) := rfl
  have hclasses : b₁.deepened.classes = _ := h.classes
  rw [derived, hclasses] at hmark
  rw [after_congr hmark]
  exact .derived ((h.deepened.withClasses _).trans (restored_after (f ⟨⟩) _))

/-- Naming a superclass opens a scope. -/
theorem opens_superclass (name : Token) : Opens (superclass name) := by
  unfold superclass
  refine .bind fun parent => ?_
  dsimp only
  split
  · exact fun _ _ h => .plain h
  · exact .bind fun _ => opens_superScope

/-- A step that opens a scope may be followed by another one. -/
theorem opens_then {x : Build α} {f : α → Build β} (hx : Opens x)
    [∀ a, Restores (f a) (f a)] : Opens (x >>= f) := by
  intro b b₁ h
  have hopens := hx b b₁ h
  rcases after_bind (x := x) (f := f) b₁ with ⟨a, b₂, hok, hafter⟩ | ⟨e, b₂, herror, hafter⟩
  · rw [after_of_ok hok] at hopens
    rw [hafter]
    exact hopens.trans (restored_after (f a) b₂)
  · rwa [hafter, ← after_of_error herror]

/-- Noting a superclass leaves the same behind at any depth. -/
theorem alike_markSuperclass : Alike markSuperclass markSuperclass :=
  .modify fun b hb => by
    split
    · exact hb
    · exact hb

/-- Naming a superclass leaves the same behind at any depth. -/
theorem alike_superclass (name : Token) : Alike (superclass name) (superclass name) := by
  unfold superclass
  refine .bind (.of_restores inferInstance) fun parent => ?_
  dsimp only
  split
  · exact .bind (.of_restores inferInstance) fun _ => .bind (.of_restores inferInstance) fun _ =>
      .bind alike_beginScope fun _ => .bind alike_markSuperclass fun _ => .of_restores inferInstance
  · exact .bind (.of_restores inferInstance) fun _ =>
      .bind alike_beginScope fun _ => .bind alike_markSuperclass fun _ => .of_restores inferInstance

/-! ## Expressions -/

section

-- The longest phrases are sequences of a dozen steps.
set_option synthInstance.maxSize 512

instance (token : Token) : Restores (numberLiteral token) (numberLiteral token) := by
  unfold numberLiteral
  dsimp only
  split <;> infer_instance

instance (token : Token) : Restores (stringLiteral token) (stringLiteral token) := by
  unfold stringLiteral
  infer_instance

instance (token : Token) : Restores (selfAccess token) (selfAccess token) := by
  unfold selfAccess
  infer_instance

instance (token : Token) : Restores (requireSuperclass token) (requireSuperclass token) := by
  unfold requireSuperclass
  refine .bind inferInstance fun b => ?_
  split <;> infer_instance

variable (inner inner' : Phrase → Build Unit) [hinner : ∀ p, Restores (inner p) (inner' p)]

instance : Restores (anyExpression inner) (anyExpression inner') := by
  unfold anyExpression
  infer_instance

instance (excess : ErrorKind) (count : Nat) :
    Restores (listElement inner excess count) (listElement inner' excess count) := by
  unfold listElement
  infer_instance

instance (excess : ErrorKind) (count : Nat) (items : List ScanItem) :
    Restores (listElements inner excess count items) (listElements inner' excess count items) := by
  induction items generalizing count with
  | nil =>
    unfold listElements
    infer_instance
  | cons _ rest ih =>
    unfold listElements
    infer_instance

instance (excess : ErrorKind) (closing : Expectation) :
    Restores (expressionList inner excess closing) (expressionList inner' excess closing) := by
  unfold expressionList
  infer_instance

instance : Restores (arguments inner) (arguments inner') := by
  unfold arguments
  infer_instance

instance (token : Token) : Restores (arrayLiteral inner token) (arrayLiteral inner' token) := by
  unfold arrayLiteral
  infer_instance

instance (op : Opcode) (token : Token) :
    Restores (unary inner op token) (unary inner' op token) := by
  unfold unary
  infer_instance

instance : Restores (grouping inner) (grouping inner') := by
  unfold grouping
  infer_instance

instance (token : Token) (canAssign : Bool) :
    Restores (variableAccess inner token canAssign) (variableAccess inner' token canAssign) := by
  unfold variableAccess
  infer_instance

instance (token : Token) : Restores (superAccess inner token) (superAccess inner' token) := by
  unfold superAccess
  infer_instance

instance (token : Token) (canAssign : Bool) :
    Restores (primary inner token canAssign) (primary inner' token canAssign) := by
  rcases token with ⟨kind, lexeme, start, line⟩
  cases kind <;> (dsimp only [primary]; infer_instance)

instance (token : Token) : Restores (conjunction inner token) (conjunction inner' token) := by
  unfold conjunction
  infer_instance

instance (token : Token) : Restores (disjunction inner token) (disjunction inner' token) := by
  unfold disjunction
  infer_instance

instance (token : Token) : Restores (subscript inner token) (subscript inner' token) := by
  unfold subscript
  infer_instance

instance (canAssign : Bool) : Restores (property inner canAssign) (property inner' canAssign) := by
  unfold property
  infer_instance

instance (token : Token) (canAssign : Bool) (continuation : Continuation) :
    Restores (continueWith inner token canAssign continuation)
      (continueWith inner' token canAssign continuation) := by
  cases continuation <;> (dsimp only [continueWith]; infer_instance)

instance (least : Precedence) (canAssign : Bool) :
    Restores (continueOnce inner least canAssign) (continueOnce inner' least canAssign) := by
  unfold continueOnce
  refine .bind inferInstance fun token => ?_
  rcases continuation? token.kind with _ | ⟨precedence, continuation⟩ <;>
    (dsimp only; infer_instance)

instance (least : Precedence) : Restores (expression inner least) (expression inner' least) := by
  unfold expression
  dsimp only
  infer_instance

/-! ## Statements and declarations -/

instance (closing : TokenKind) :
    Restores (blockRound inner closing) (blockRound inner' closing) := by
  unfold blockRound
  infer_instance

instance : Restores (block inner) (block inner') := by
  unfold block
  infer_instance

instance (jump line : Nat) : Restores (landAndDrop jump line) (landAndDrop jump line) := by
  unfold landAndDrop
  infer_instance

instance : Restores (alternative inner) (alternative inner') := by
  unfold alternative
  infer_instance

instance : Restores (conditional inner) (conditional inner') := by
  unfold conditional
  infer_instance

instance : Restores (whileLoop inner) (whileLoop inner') := by
  unfold whileLoop
  infer_instance

instance (keyword : Token) :
    Restores (returnStatement inner keyword) (returnStatement inner' keyword) := by
  unfold returnStatement
  refine .bind inferInstance fun b => ?_
  cases b.context.function.kind <;> (dsimp only; infer_instance)

instance (keyword : Token) :
    Restores (printStatement inner keyword) (printStatement inner' keyword) := by
  unfold printStatement
  infer_instance

instance : Restores (expressionStatement inner) (expressionStatement inner') := by
  unfold expressionStatement
  infer_instance

instance : Restores (statement inner) (statement inner') := by
  unfold statement
  refine .bind inferInstance fun token => ?_
  cases token.kind <;> (dsimp only; infer_instance)

instance : Restores parameter parameter := by
  unfold parameter
  refine .bind inferInstance fun b => ?_
  have hcount : Restores (modifyContext fun c =>
      { c with function := { c.function with arity := c.function.arity + 1 } }) _ :=
    restores_modifyContext fun _ => .of_function rfl rfl
  dsimp only
  infer_instance

instance : Restores parameters parameters := by
  unfold parameters
  infer_instance

theorem alike_functionBody (hasParameters : Bool) :
    Alike (functionBody inner hasParameters) (functionBody inner' hasParameters) := by
  unfold functionBody
  exact .bind alike_beginScope fun _ => .of_restores inferInstance

omit hinner in
/-- A function is found one block further in than it began. -/
theorem within_functionBody [∀ p, Restores (inner p) (inner p)] (hasParameters : Bool)
    (b : Builder) : b.Within 1 b.classes (after (functionBody inner hasParameters) b) := by
  unfold functionBody
  exact within_block (fun _ => inferInstance) b

instance (name : String) (kind : FunctionKind) (hasParameters : Bool) :
    Restores (function inner name kind hasParameters)
      (function inner' name kind hasParameters) := by
  have hleft : ∀ p, Restores (inner p) (inner p) := fun p => (hinner p).left
  unfold function
  refine .bind inferInstance fun line => ?_
  refine restores_bracket (s := fun b => b.beginFunction name kind)
    (W := fun b b' => (b.beginFunction name kind).Within 1 b.classes b') (fun b hb => ?_)
    (alike_functionBody inner inner' hasParameters)
    (fun b => within_functionBody inner hasParameters (b.beginFunction name kind))
    (fun _ _ => restored_endFunction) fun _ _ => inferInstance
  exact List.forall_mem_cons.2 ⟨FunctionContext.layered_start name kind, hb⟩

instance : Restores (variableDeclaration inner) (variableDeclaration inner') := by
  unfold variableDeclaration
  infer_instance

instance : Restores (functionDeclaration inner) (functionDeclaration inner') := by
  unfold functionDeclaration
  infer_instance

instance : Restores (member inner) (member inner') := by
  unfold member
  infer_instance

instance : Restores (memberRound inner) (memberRound inner') := by
  unfold memberRound
  infer_instance

/-- The body of a class leaves the same behind at any depth. -/
theorem alike_classBody (name : Token) : Alike (classBody inner name) (classBody inner' name) := by
  unfold classBody
  refine .bind (.of_restores inferInstance) fun hasParent => ?_
  cases hasParent with
  | false =>
    simp only [Bool.false_eq_true, ↓reduceIte]
    exact .of_restores inferInstance
  | true =>
    simp only [↓reduceIte]
    exact .bind (alike_superclass name) fun _ => .of_restores inferInstance

omit hinner in
/-- The body of a class opens a scope if there is a superclass. -/
theorem opens_classBody [∀ p, Restores (inner p) (inner p)] (name : Token) :
    Opens (classBody inner name) := by
  unfold classBody
  refine .bind fun hasParent => ?_
  cases hasParent with
  | false =>
    simp only [Bool.false_eq_true, ↓reduceIte]
    exact fun _ b₁ h => .plain (h.trans (restored_after _ b₁))
  | true =>
    simp only [↓reduceIte]
    exact opens_then (opens_superclass name)

instance : Restores (classDeclaration inner) (classDeclaration inner') := by
  have hleft : ∀ p, Restores (inner p) (inner p) := fun p => (hinner p).left
  unfold classDeclaration
  refine .bind inferInstance fun name => .bind inferInstance fun index =>
    .bind inferInstance fun _ => .bind inferInstance fun _ => .bind inferInstance fun b =>
    .bind inferInstance fun _ => ?_
  refine restores_bracket (s := fun b => { b with classes := ⟨false⟩ :: b.classes })
    (W := Builder.InBody) (fun _ => id) (alike_classBody inner inner' name) (fun b => ?_)
    (fun _ _ => restored_endClass) fun _ _ => inferInstance
  exact opens_classBody inner name b _ ((Builder.Restored.refl b).withClasses _)

/-! ## Recovery -/

instance : Restores synchronizeRound synchronizeRound := by
  unfold synchronizeRound
  infer_instance

instance : Restores synchronize synchronize := by
  unfold synchronize
  infer_instance

instance : Restores (tryDeclaration inner) (tryDeclaration inner') := by
  unfold tryDeclaration
  refine .bind inferInstance fun token => ?_
  cases token.kind <;> (dsimp only; infer_instance)

instance : Restores (declaration inner) (declaration inner') := by
  unfold declaration
  refine .bind inferInstance fun outcome => ?_
  cases outcome <;> (dsimp only; infer_instance)

end

/-- The building of a phrase out of the phrases inside it. -/
def compose (p : Phrase) (inner : Phrase → Build Unit) : Build Unit :=
  match p with
  | .declaration => declaration inner
  | .conditional => conditional inner
  | .expression least => expression inner least

theorem phrase_succ (depth : Nat) (p : Phrase) :
    phrase (depth + 1) p = compose p (phrase depth) := by
  cases p <;> rfl

instance (p : Phrase) (inner inner' : Phrase → Build Unit) [∀ p, Restores (inner p) (inner' p)] :
    Restores (compose p inner) (compose p inner') := by
  cases p <;> (dsimp only [compose]; infer_instance)

/-- **Every phrase restores the nesting.** -/
instance restores_phrase (depth : Nat) (p : Phrase) :
    Restores (phrase depth p) (phrase depth p) := by
  induction depth generalizing p with
  | zero =>
    unfold phrase
    infer_instance
  | succ depth ih =>
    rw [phrase_succ]
    infer_instance

/-! ## Whatever is ended has been begun -/

/-- Wherever a block, a class or a function is ended, it has been begun: there is a depth to go back
from, and a function to go back to. -/
structure Matched (inner : Phrase → Build Unit) : Prop where
  /-- The end of a block. -/
  block : ∀ b, 0 < (after (beginScope >>= fun _ => attempt (block inner)) b).context.depth
  /-- The end of the scope of a superclass. -/
  superclass : ∀ name b b', after (beginClass >>= fun _ => attempt (classBody inner name)) b = b' →
    b'.classes.head?.any (·.hasSuperclass) → 0 < b'.context.depth
  /-- The end of a function. -/
  function : ∀ name kind hasParameters b,
    (after (beginFunction name kind >>= fun _ => attempt (functionBody inner hasParameters))
      b).enclosing ≠ []

/-- Every part of the grammar restores what is around it. -/
theorem matched_of_restores (inner : Phrase → Build Unit) [∀ p, Restores (inner p) (inner p)] :
    Matched inner where
  block b := by
    have h := within_block (f := fun _ => attempt (Build.block inner)) (fun _ => inferInstance) b
    rw [h.depth]
    exact Nat.succ_pos _
  superclass name b b' hafter hparent := by
    have hrun : after (beginClass >>= fun _ => attempt (classBody inner name)) b =
        after (classBody inner name) { b with classes := ⟨false⟩ :: b.classes } :=
      after_attempt (classBody inner name) _
    have hbody : b.InBody b' := by
      rw [← hafter, hrun]
      exact opens_classBody inner name b _ ((Builder.Restored.refl b).withClasses _)
    cases hbody with
    | plain h =>
      rw [h.classes] at hparent
      exact absurd hparent Bool.false_ne_true
    | derived h =>
      rw [h.depth]
      exact Nat.succ_pos _
  function name kind hasParameters b := by
    have h := within_functionBody inner hasParameters (b.beginFunction name kind)
    have hafter : after (beginFunction name kind >>= fun _ =>
        attempt (functionBody inner hasParameters)) b =
        after (functionBody inner hasParameters) (b.beginFunction name kind) :=
      after_attempt (functionBody inner hasParameters) _
    rw [hafter]
    intro hnone
    have hlength := h.enclosing.length_eq
    rw [hnone] at hlength
    exact absurd hlength (by simp [Builder.beginFunction])

/-! ## Where phrases are begun -/

/-- A step that is put together from phrases begins a phrase at `b'`: what is built there decides
what becomes of the step. -/
def Begins (step : (Phrase → Build Unit) → Build Unit) (inner : Phrase → Build Unit) (b : Builder)
    (p : Phrase) (b' : Builder) : Prop :=
  ∃ other : Phrase → Build Unit, (∀ q c, (q, c) ≠ (p, b') → other q c = inner q c) ∧
    step other b ≠ step inner b

/-- A step from where the locals lie in layers begins phrases only where they do. -/
theorem Begins.layered {step : (Phrase → Build Unit) → Build Unit} {inner : Phrase → Build Unit}
    {b b' : Builder} {p : Phrase} (h : Begins step inner b p b')
    (hinner : ∀ p, Restores (inner p) (inner p))
    (hstep : ∀ other, (∀ p, Restores (inner p) (other p)) → Restores (step inner) (step other))
    (hb : b.Layered) : b'.Layered := by
  obtain ⟨other, hother, hne⟩ := h
  by_contra hlayered
  -- Otherwise the two agree wherever the locals lie in layers.
  have hagree : ∀ q, Restores (inner q) (other q) := fun q =>
    ⟨fun c hc => (hother q c fun heq => hlayered ((Prod.mk.inj heq).2 ▸ hc)).symm,
      (hinner q).restored⟩
  exact hne ((hstep other hagree).agree b hb).symm

end Build

open Build

/-- A phrase is begun while a source is compiled, with so much depth left for the phrases inside. -/
inductive Builder.Begun (functions : Array Function) (source : String) :
    Nat → Phrase → Builder → Prop where
  /-- One of the declarations that the source consists of. -/
  | outermost {p : Phrase} {b : Builder}
      (h : Begins (fun inner => repeatWhile (blockRound inner .eof))
        (phrase (2 * (scan source).length + 2)) (start functions source (scan source)) p b) :
      Begun functions source (2 * (scan source).length + 2) p b
  /-- A phrase inside another. -/
  | inside {depth : Nat} {p q : Phrase} {b c : Builder}
      (hp : Begun functions source (depth + 1) p b)
      (h : Begins (compose p) (phrase depth) b q c) : Begun functions source depth q c

namespace Builder.Begun

variable {functions : Array Function} {source : String} {depth : Nat} {p : Phrase} {b : Builder}

/-- **Where a phrase is begun the locals lie in layers.** -/
theorem layered (h : Begun functions source depth p b) : b.Layered := by
  induction h with
  | outermost h =>
    exact h.layered inferInstance (fun _ _ => inferInstance) (layered_start _ _ _)
  | inside _ h ih => exact h.layered inferInstance (fun _ _ => inferInstance) ih

/-- The first declaration is begun at the start of the source. -/
theorem first {token : Token} {rest : List ScanItem} (hscan : scan source = .ok token :: rest)
    (htoken : token.kind ≠ .eof) :
    Begun functions source (2 * (scan source).length + 2) .declaration
      (start functions source (scan source)) := by
  classical
  let b := start functions source (scan source)
  let inner := phrase (2 * (scan source).length + 2)
  -- Whatever the declarations come to, there is a complaint with which they do not end at once.
  obtain ⟨e, he⟩ : ∃ e, repeatWhile (blockRound inner .eof) b ≠ .error e b := by
    by_contra hall
    push Not at hall
    have heq := (hall ⟨.nestingTooDeep, 0, none, ""⟩).symm.trans
      (hall ⟨.nestingTooDeep, 1, none, ""⟩)
    simp at heq
  let other : Phrase → Build Unit := fun q c =>
    if (q, c) = (.declaration, b) then .error e b else inner q c
  have hpeek : peek b = .ok token b := by
    have hpending : b.pending = .ok token :: rest := hscan
    rw [peek, hpending]
    show EStateM.Result.ok token { b with pending := .ok token :: rest } = _
    rw [← hpending]
  have hround : blockRound other .eof b = .error e b := by
    have hend : atEnd .eof b = .ok false b := by
      rw [atEnd, bind_of_ok hpeek]
      simp [htoken]
      rfl
    rw [blockRound, bind_of_ok hend]
    exact bind_of_error (if_pos rfl)
  refine .outermost ⟨other, fun q c hne => if_neg hne, ?_⟩
  have hother : repeatWhile (blockRound other .eof) b = .error e b := by
    show repeatOver (blockRound other .eof) b.pending b = _
    have hpending : b.pending = .ok token :: rest := hscan
    rw [hpending, repeatOver, bind_of_error hround]
  exact fun heq => he (heq.symm.trans hother)

/-- **A declaration restores the nesting, whether it is accepted or not.** -/
theorem declaration_restores (h : Begun functions source depth .declaration b) :
    b.Layered ∧ b.Restored (after (phrase depth .declaration) b) ∧ Matched (phrase depth) :=
  ⟨h.layered, restored_after _ b, matched_of_restores _⟩

end Builder.Begun

namespace Build

variable {α : Type} {x : Build α} {b : Builder} {check : α → Builder → Bool}

/-- Whether a step succeeds and its result and the builder pass a check. -/
def passes (x : Build α) (b : Builder) (check : α → Builder → Bool) : Bool :=
  match x b with
  | .ok a b' => check a b'
  | .error _ _ => false

/-- A step that passes a check succeeds with what is checked. -/
theorem exists_of_passes (h : passes x b check = true) :
    ∃ a b', x b = .ok a b' ∧ check a b' = true := by
  unfold passes at h
  split at h
  · next a b' hok => exact ⟨a, b', hok, h⟩
  · cases h

end Build

namespace Builder.Begun

/-- A class that is given up in the parameters of a method, inside the scope of its superclass. -/
def brokenClass : String :=
  "class B : A \x7b m( \x7d"

/-- A class with mistakes in it is reported once, and restores what is around it. -/
theorem declaration_restores_brokenClass :
    ∃ b b', Begun #[] brokenClass 20 .declaration b ∧ phrase 20 .declaration b = .ok () b' ∧
      b'.errors.size = 1 ∧ b.Layered ∧ b.Restored b' ∧ Matched (phrase 20) := by
  have hscan : (scan brokenClass).length = 9 ∧
      (scan brokenClass).head? = some (.ok ⟨.classKw, "class", 0, 1⟩) := by
    decide +kernel
  obtain ⟨rest, hrest⟩ := List.head?_eq_some_iff.1 hscan.2
  have hbegun := @first #[] brokenClass _ rest hrest (by decide)
  rw [hscan.1] at hbegun
  have hrestores := hbegun.declaration_restores
  have hrun : passes (phrase 20 .declaration) (start #[] brokenClass (scan brokenClass))
      (fun _ b' => b'.errors.size == 1) = true := by
    decide +kernel
  obtain ⟨⟨⟩, b', hok, herrors⟩ := exists_of_passes hrun
  rw [after_of_ok hok] at hrestores
  exact ⟨_, b', hbegun, hok, eq_of_beq herrors, hrestores⟩

end Builder.Begun

end ScriptVM
