/-
# How a program grows

While a source is read, the code of the function at hand gets longer, the functions around it
capture more variables, and finished functions are added to a table.  What has been said about
earlier code stays true.

`Sound` is what holds of a builder between two steps, with a blueprint for each finished function;
`Grown` is what a clean step does to it.  `Emission` adds what the appended code does: it flows from
one point to another above every base that has the visible locals in their slots (`Covers`).
Emissions are put together by `Emission.append`, and work above any operands (`Emission.rebase`).
-/
import ScriptVM.Proofs.Chunk.Constants
import ScriptVM.Proofs.Program.Scopes
import ScriptVM.Proofs.Program.Steps
import ScriptVM.Proofs.Token.Names

namespace ScriptVM

/-! ## Finished functions -/

/-- Constants that can be numbered, and of which the functions are among the finished ones. -/
structure ConstantsOk (finished : Nat) (constants : Array Value) : Prop where
  /-- The constants can be numbered. -/
  size_le : constants.size ≤ Chunk.constantLimit
  /-- The functions among them are finished. -/
  references : ∀ id, .functionRef id ∈ constants.toList → id.index < finished

theorem ConstantsOk.mono {n m : Nat} {constants : Array Value} (h : ConstantsOk n constants)
    (hle : n ≤ m) : ConstantsOk m constants :=
  ⟨h.size_le, fun id hid => Nat.lt_of_lt_of_le (h.references id hid) hle⟩

theorem ConstantsOk.empty (n : Nat) : ConstantsOk n #[] :=
  ⟨Nat.zero_le _, by simp⟩

/-- A function is as its blueprint says: its code is the marked code, which holds above the slot of
the callee, starts with the parameters and never goes on behind its end. -/
structure Function.Fits (blueprints : List Blueprint) (f : Function) (bp : Blueprint) : Prop where
  /-- The bytes are those of the marked code. -/
  code : f.chunk.code.toList = bp.marks.code.bytes
  /-- The lines are those of the marked code. -/
  lines : f.chunk.lines.toList = bp.marks.code.lines
  /-- There is a slot for each parameter. -/
  arity : bp.parameters.length = f.arity.toNat
  /-- Parameters are any values. -/
  parameters : ∀ s ∈ bp.parameters, s.kind = .value
  /-- The captured variables are counted. -/
  captures : bp.captures.length = f.captureCount
  /-- The functions among the constants are in the table. -/
  constants : ConstantsOk blueprints.length f.chunk.constants
  /-- Methods are called on instances. -/
  member : bp.isMember = true ↔ f.kind = .method ∨ f.kind = .initializer
  /-- Initializers set instances up. -/
  initializer : bp.initializes = decide (f.kind = .initializer)
  /-- The slot of the callee holds the instance of a method. -/
  receiver : bp.receiver.kind = if bp.isMember then .receiver else .callee
  /-- The code starts with the parameters. -/
  entry : Reaches (bp.marks.point? none) 0 (.at bp.parameters)
  /-- The marks are right. -/
  hold : bp.marks.Hold ⟨f.chunk.constants, blueprints, bp.captures, bp.initializes⟩ [bp.receiver]
    (bp.marks.point? none) 0
  /-- The last instruction leaves the call. -/
  last : ∃ front line, bp.marks.code = front ++ [⟨.ret, [], line⟩]

/-- Each function of a table is as its blueprint says. -/
abbrev TableFits (blueprints : List Blueprint) (functions : List Function) : Prop :=
  List.Forall₂ (Function.Fits blueprints) functions blueprints

/-- A function stays as its blueprint says while more blueprints come behind. -/
theorem Function.Fits.mono {blueprints blueprints' : List Blueprint} {f : Function} {bp : Blueprint}
    (h : f.Fits blueprints bp) (hle : blueprints <+: blueprints') : f.Fits blueprints' bp :=
  { h with
    constants := h.constants.mono hle.length_le
    hold := h.hold.mono ⟨id, fun hf => getElem?_of_isPrefix hle hf, id, rfl⟩ (Shape.Le.refl _) }

/-- A table with one more function. -/
theorem TableFits.push {blueprints : List Blueprint} {functions : List Function} {f : Function}
    {bp : Blueprint} (h : TableFits blueprints functions)
    (hf : f.Fits (blueprints ++ [bp]) bp) : TableFits (blueprints ++ [bp]) (functions ++ [f]) := by
  refine List.rel_append ?_ (.cons hf .nil)
  exact h.imp fun g bp' hg => hg.mono (List.prefix_append _ _)

/-! ## Builders -/

/-- A function at hand or around stays within its limits, and only the outermost one is ever at the
top level, where it has no variables of its own. -/
structure FunctionContext.Ok (finished : Nat) (c : FunctionContext)
    (around : List FunctionContext) : Prop where
  /-- The locals and captured variables can be numbered. -/
  sized : c.Sized
  /-- The constants can be numbered, and refer to finished functions. -/
  constants : ConstantsOk finished c.function.chunk.constants
  /-- No local is declared deeper than the current block. -/
  depths : ∀ l ∈ c.locals, l.depth ≤ c.depth
  /-- At the top level there are no variables to be found. -/
  top : c.depth = 0 → around = [] ∧ ∃ l, c.locals = [l] ∧ l.name = ""

/-- The function at hand and those around it stay within their limits. -/
def ContextsOk (finished : Nat) : List FunctionContext → Prop
  | [] => True
  | c :: around => c.Ok finished around ∧ ContextsOk finished around

/-- More finished functions leave the functions at hand within their limits. -/
theorem ContextsOk.mono {n m : Nat} {contexts : List FunctionContext} (h : ContextsOk n contexts)
    (hle : n ≤ m) : ContextsOk m contexts := by
  induction contexts with
  | nil => trivial
  | cons c rest ih => exact ⟨{ h.1 with constants := h.1.constants.mono hle }, ih h.2⟩

/-- All functions at hand and around are sized. -/
theorem ContextsOk.sized {n : Nat} {contexts : List FunctionContext} (h : ContextsOk n contexts) :
    ∀ c ∈ contexts, c.Sized := by
  induction contexts with
  | nil => simp
  | cons c rest ih =>
    intro c' hc'
    rcases List.mem_cons.1 hc' with rfl | hc'
    · exact h.1.sized
    · exact ih h.2 c' hc'

/-- At the top level there stay no variables to be found. -/
theorem FunctionContext.Ok.top_raised {n : Nat} {c : FunctionContext} {locals : List Local}
    {around around' : List FunctionContext} (h : c.Ok n around)
    (hlocals : LocalsRaised c.locals locals)
    (haround : ContextsRaised around around') (hdepth : c.depth = 0) :
    around' = [] ∧ ∃ l, locals = [l] ∧ l.name = "" := by
  obtain ⟨rfl, l, hl, hname⟩ := h.top hdepth
  obtain rfl := List.forall₂_nil_left_iff.1 haround
  rw [hl] at hlocals
  obtain ⟨l', rest, hraise, hrest, hl'⟩ := List.forall₂_cons_left_iff.1 hlocals
  obtain rfl := List.forall₂_nil_left_iff.1 hrest
  exact ⟨rfl, l', hl', hraise.name.trans hname⟩

/-- A function stays within its limits while it and those around it are raised. -/
theorem FunctionContext.Ok.raised {n : Nat} {c c' : FunctionContext}
    {around around' : List FunctionContext} (h : c.Ok n around) (hc : c.Raised c')
    (haround : ContextsRaised around around') : c'.Ok n around' where
  sized := hc.sized h.sized
  constants := hc.function ▸ h.constants
  depths := by
    intro l' hl'
    rw [hc.depth]
    obtain ⟨l, hl, hraise⟩ := hc.locals.exists_of_mem hl'
    rw [hraise.depth]
    exact h.depths l hl
  top hdepth := h.top_raised hc.locals haround (hc.depth ▸ hdepth)

/-- The functions at hand and around stay within their limits while they are raised. -/
theorem ContextsOk.raised {n : Nat} {contexts contexts' : List FunctionContext}
    (h : ContextsOk n contexts) (hraised : ContextsRaised contexts contexts') :
    ContextsOk n contexts' := by
  induction hraised with
  | nil => trivial
  | cons hc haround ih => exact ⟨h.1.raised hc haround, ih h.2⟩

/-- What holds of a builder between two steps. -/
structure Sound (blueprints : List Blueprint) (b : Builder) : Prop where
  /-- The names that are still to be read do not hide anything. -/
  tokens : ∀ item ∈ b.pending, item.Plain
  /-- The functions stay within their limits. -/
  contexts : ContextsOk blueprints.length (b.context :: b.enclosing)
  /-- All captured variables are there. -/
  linked : Linked (b.context :: b.enclosing)
  /-- The captured superclasses are found where they should. -/
  rooted : Rooted (b.context :: b.enclosing)
  /-- The finished functions are as their blueprints say. -/
  table : TableFits blueprints b.functions.toList

/-- What the code of the function at hand refers to. -/
def Builder.env (b : Builder) (blueprints : List Blueprint) : Env :=
  ⟨b.chunk.constants, blueprints, captureKinds (b.context :: b.enclosing),
    b.context.function.kind = .initializer⟩

/-- What was built before stays while a program is built on, with other locals at any depth. -/
structure Extends (bps : List Blueprint) (b : Builder) (bps' : List Blueprint) (b' : Builder)
    (code : Code) : Prop where
  /-- The builder holds together as before. -/
  sound : Sound bps' b'
  /-- The kind of the function at hand stays. -/
  kind : b'.context.function.kind = b.context.function.kind
  /-- The parameters of the function at hand stay. -/
  arity : b'.context.function.arity = b.context.function.arity
  /-- The variables that the function at hand captures are counted at its end. -/
  captureCount : b'.context.function.captureCount = b.context.function.captureCount
  /-- The functions around may capture more. -/
  enclosing : ContextsRaised b.enclosing b'.enclosing
  /-- The function at hand may capture more. -/
  captures : b.context.captures.toList <+: b'.context.captures.toList
  /-- The constants stay. -/
  constants : b.chunk.constants.toList <+: b'.chunk.constants.toList
  /-- Code is appended. -/
  code : b.chunk.Appends b'.chunk code
  /-- The blueprints stay. -/
  blueprints : bps <+: bps'
  /-- The finished functions stay. -/
  functions : b.functions.toList <+: b'.functions.toList

/-- What a clean step does to a builder and its finished functions. -/
structure Grown (bps : List Blueprint) (b : Builder) (bps' : List Blueprint) (b' : Builder)
    (code : Code) : Prop extends Extends bps b bps' b' code where
  /-- The classes around stay. -/
  classes : b'.classes = b.classes
  /-- The depth of the current block is as before. -/
  depth : b'.context.depth = b.context.depth

namespace Extends

variable {bps bps₁ bps₂ : List Blueprint} {b b₁ b₂ : Builder} {code c₁ c₂ : Code}

/-- A sound builder is a continuation of itself, with no code appended. -/
theorem refl (h : Sound bps b) : Extends bps b bps b [] where
  sound := h
  kind := rfl
  arity := rfl
  captureCount := rfl
  enclosing := ContextsRaised.refl _
  captures := List.prefix_refl _
  constants := List.prefix_refl _
  code := .refl _
  blueprints := List.prefix_refl _
  functions := List.prefix_refl _

/-- Continuations of a builder follow on each other, and so does their code. -/
theorem trans (h₁ : Extends bps b bps₁ b₁ c₁) (h₂ : Extends bps₁ b₁ bps₂ b₂ c₂) :
    Extends bps b bps₂ b₂ (c₁ ++ c₂) where
  sound := h₂.sound
  kind := h₂.kind.trans h₁.kind
  arity := h₂.arity.trans h₁.arity
  captureCount := h₂.captureCount.trans h₁.captureCount
  enclosing := h₁.enclosing.trans h₂.enclosing
  captures := h₁.captures.trans h₂.captures
  constants := h₁.constants.trans h₂.constants
  code := h₁.code.trans h₂.code
  blueprints := h₁.blueprints.trans h₂.blueprints
  functions := h₁.functions.trans h₂.functions

/-- **What code refers to stays.** -/
theorem env_le (h : Extends bps b bps₁ b₁ code) (hb : Sound bps b) :
    (b.env bps).Le (b₁.env bps₁) where
  constants hi := by
    have hi' := getElem?_of_isPrefix h.constants (Array.getElem?_toList.trans hi)
    rwa [Array.getElem?_toList] at hi'
  blueprints hi := getElem?_of_isPrefix h.blueprints hi
  captures hi := captureKinds_mono h.captures hb.linked h.enclosing hi
  initializes := by
    show decide (b₁.context.function.kind = .initializer) = decide _
    rw [h.kind]

end Extends

namespace Grown

variable {bps bps₁ bps₂ : List Blueprint} {b b₁ b₂ : Builder} {code c₁ c₂ : Code}

theorem refl (h : Sound bps b) : Grown bps b bps b [] :=
  { Extends.refl h with
    classes := rfl
    depth := rfl }

/-- Clean steps follow on each other, and so does their code. -/
theorem trans (h₁ : Grown bps b bps₁ b₁ c₁) (h₂ : Grown bps₁ b₁ bps₂ b₂ c₂) :
    Grown bps b bps₂ b₂ (c₁ ++ c₂) :=
  { h₁.toExtends.trans h₂.toExtends with
    classes := h₂.classes.trans h₁.classes
    depth := h₂.depth.trans h₁.depth }

end Grown

/-! ## Single steps -/

/-- The next token of a sound builder is a plain one. -/
theorem Builder.next_plain {bps : List Blueprint} {b : Builder} (h : Sound bps b) :
    b.next.Plain := by
  rw [next]
  unfold Build.firstToken
  split
  · next token rest hpending =>
    exact h.tokens _ (hpending ▸ List.mem_cons_self) token rfl
  · exact ⟨by simp, by simp⟩

/-- Taking a token appends nothing. -/
theorem Grown.take {bps : List Blueprint} {b : Builder} (h : Sound bps b) :
    Grown bps b bps b.take [] :=
  { Grown.refl h with
    sound := { h with
      tokens := by
        intro item hitem
        rw [Builder.take] at hitem
        dsimp only at hitem
        split at hitem
        · exact h.tokens item hitem
        · exact h.tokens item (List.mem_of_mem_tail hitem) } }

/-- The function at hand with other code. -/
theorem Grown.withChunk {bps : List Blueprint} {b : Builder} {chunk : Chunk} {code : Code}
    (h : Sound bps b) (hcode : b.chunk.Appends chunk code)
    (hconstants : b.chunk.constants.toList <+: chunk.constants.toList)
    (hsize : ConstantsOk bps.length chunk.constants) :
    Grown bps b bps (b.withChunk chunk) code :=
  { Grown.refl h with
    sound := { h with
      contexts := ⟨{ h.contexts.1 with constants := hsize }, h.contexts.2⟩ }
    constants := hconstants
    code := hcode }

theorem Grown.emit {bps : List Blueprint} {b : Builder} (h : Sound bps b) (op : Opcode)
    (line : Nat) : Grown bps b bps (b.emit op line) [⟨op, [], line⟩] :=
  .withChunk h (.addOpcode _ op line) (List.prefix_refl _) h.contexts.1.constants

theorem Grown.emitWith {bps : List Blueprint} {b : Builder} (h : Sound bps b) (op : Opcode)
    (operand : UInt8) (line : Nat) :
    Grown bps b bps (b.emitWith op operand line) [⟨op, [operand], line⟩] :=
  .withChunk h (.addInstruction _ op operand line) (List.prefix_refl _) h.contexts.1.constants

theorem Grown.emitJump {bps : List Blueprint} {b : Builder} (h : Sound bps b) (op : Opcode)
    (line : Nat) : Grown bps b bps (b.emitJump op line) [⟨op, [0xFF, 0xFF], line⟩] :=
  .withChunk h (.addJump _ op line) (List.prefix_refl _) h.contexts.1.constants

/-- A jump that is patched leads behind the code at hand; nothing else changes. -/
theorem Grown.patchJump {bps bps' : List Blueprint} {b b' : Builder} (front : Code) {code : Code}
    {op : Opcode} {x y : UInt8} {line offset : Nat} {chunk : Chunk}
    (h : Grown bps b bps' b' (front ++ ⟨op, [x, y], line⟩ :: code))
    (hpatch : b'.chunk.patchJump offset = .ok chunk)
    (hoffset : offset = b.chunk.size + front.extent) :
    code.extent ≤ Chunk.distanceLimit ∧
      Grown bps b bps' (b'.withChunk chunk)
        (front ++ ⟨op, distanceBytes code.extent, line⟩ :: code) ∧
      (b'.withChunk chunk).env bps' = b'.env bps' := by
  subst hoffset
  obtain ⟨hlimit, hcode, hconstants⟩ := h.code.patchJump hpatch
  have hsize : ConstantsOk bps'.length chunk.constants :=
    hconstants ▸ h.sound.contexts.1.constants
  refine ⟨hlimit, { h with
    sound := { h.sound with
      contexts := ⟨{ h.sound.contexts.1 with constants := hsize }, h.sound.contexts.2⟩ }
    constants := ?_
    code := hcode }, ?_⟩
  · show b.chunk.constants.toList <+: chunk.constants.toList
    rw [hconstants]
    exact h.constants
  · show Env.mk chunk.constants _ _ _ = Env.mk b'.chunk.constants _ _ _
    rw [hconstants]
    rfl

/-- The builder at the place where the jump in front of some code lands, behind a jump at the end of
the code. -/
theorem Grown.landed {bps bps' : List Blueprint} {b b' : Builder} {code : Code} {line line' : Nat}
    {chunk : Chunk} (hb : Sound bps b)
    (h : Grown bps (b.emitJump .jumpIfFalse line) bps' b' code)
    (hpatch : (b'.emitJump .jump line').chunk.patchJump b.chunk.size = .ok chunk) :
    code.extent + Chunk.jumpLength ≤ Chunk.distanceLimit ∧
      Grown bps b bps' ((b'.emitJump .jump line').withChunk chunk)
        (⟨.jumpIfFalse, distanceBytes (code.extent + Chunk.jumpLength), line⟩ ::
          (code ++ [⟨.jump, [0xFF, 0xFF], line'⟩])) ∧
      ((b'.emitJump .jump line').withChunk chunk).env bps' = b'.env bps' := by
  have hgo := (Grown.emitJump hb .jumpIfFalse line).trans h
  have hskip := hgo.trans (Grown.emitJump h.sound .jump line')
  rw [List.append_assoc, List.singleton_append] at hskip
  have hextent : (code ++ [⟨.jump, [0xFF, 0xFF], line'⟩] : Code).extent
      = code.extent + Chunk.jumpLength := by
    simp [Instruction.size, Chunk.jumpLength]
  rw [← hextent]
  exact Grown.patchJump [] hskip hpatch rfl

/-! ## Constants -/

theorem Value.isLiteral_of_sameConstant {v w : Value} (h : v.sameConstant w = true)
    (hw : w.isLiteral = true) : v.isLiteral = true := by
  cases w <;> simp [isLiteral] at hw <;> cases v <;>
    first | rfl | simp [sameConstant, equals] at h

/-- The constant with the index that is given can stand for the value; the constants before it
stay. -/
theorem Chunk.addConstant_some {chunk chunk' : Chunk} {value : Value} {index : UInt8} {n : Nat}
    (h : chunk.addConstant value = (some index, chunk')) (hok : ConstantsOk n chunk.constants)
    (hvalue : ∀ id, value = .functionRef id → id.index < n) :
    (∃ v, chunk'.constants[index.toNat]? = some v ∧ (v = value ∨ v.sameConstant value = true)) ∧
      chunk.constants.toList <+: chunk'.constants.toList ∧
      ConstantsOk n chunk'.constants ∧ chunk.Appends chunk' [] := by
  obtain ⟨happends, hprefix⟩ := Appends.addConstant h
  refine ⟨getElem?_of_addConstant h hok.size_le, hprefix, ?_, happends⟩
  rcases addConstant_some_cases h with ⟨_, -, -, -, rfl⟩ | ⟨hroom, -, rfl⟩
  · exact hok
  · refine ⟨?_, fun id hid => ?_⟩
    · rw [Array.size_push]
      exact hroom
    · rw [Array.toList_push, List.mem_append, List.mem_singleton] at hid
      exact hid.elim (hok.references id) fun hid => hvalue id hid.symm

/-- What reading or adding a constant does. -/
theorem Grown.addConstant {bps : List Blueprint} {b : Builder} {chunk : Chunk} {value : Value}
    {index : UInt8} (h : Sound bps b) (hadd : b.chunk.addConstant value = (some index, chunk))
    (hvalue : ∀ id, value = .functionRef id → id.index < bps.length) :
    Grown bps b bps (b.withChunk chunk) [] ∧
      ∃ v, ((b.withChunk chunk).env bps).constants[index.toNat]? = some v ∧
        (v = value ∨ v.sameConstant value = true) := by
  obtain ⟨hv, hprefix, hok, hcode⟩ := Chunk.addConstant_some hadd h.contexts.1.constants hvalue
  exact ⟨.withChunk h hcode hprefix hok, hv⟩

/-- The constant of a name is the name. -/
theorem Grown.addName {bps : List Blueprint} {b : Builder} {chunk : Chunk} {name : String}
    {index : UInt8} (h : Sound bps b)
    (hadd : b.chunk.addConstant (.string name) = (some index, chunk)) :
    Grown bps b bps (b.withChunk chunk) [] ∧ ((b.withChunk chunk).env bps).Names index name := by
  obtain ⟨hgrown, v, hv, hsame⟩ := Grown.addConstant h hadd (by simp)
  obtain rfl : v = .string name := hsame.elim id Value.eq_of_sameConstant_string
  exact ⟨hgrown, hv⟩

/-- The constant of a literal is one. -/
theorem Grown.addLiteral {bps : List Blueprint} {b : Builder} {chunk : Chunk} {value : Value}
    {index : UInt8} (h : Sound bps b) (hvalue : value.isLiteral = true)
    (hadd : b.chunk.addConstant value = (some index, chunk)) :
    Grown bps b bps (b.withChunk chunk) [] ∧
      ∃ v, ((b.withChunk chunk).env bps).constants[index.toNat]? = some v ∧
        v.isLiteral = true := by
  obtain ⟨hgrown, v, hv, hsame⟩ := Grown.addConstant h hadd fun id hid => by
    rw [hid] at hvalue
    simp [Value.isLiteral] at hvalue
  refine ⟨hgrown, v, hv, ?_⟩
  rcases hsame with rfl | hsame
  · exact hvalue
  · exact Value.isLiteral_of_sameConstant hsame hvalue

/-! ## What the appended code does -/

/-- The slot of a local. -/
def Local.slot (l : Local) : Slot :=
  ⟨.ofName l.name, l.captured⟩

theorem Local.Raised.slot_le {l l' : Local} (h : l.Raised l') : l.slot.Le l'.slot :=
  ⟨congrArg SlotKind.ofName h.name.symm, h.captured⟩

/-- A shape has the locals that have their values in their slots; more slots may be captured. -/
def Covers (locals : List Local) (S : Shape) : Prop :=
  ∀ i l, slot? locals i = some l → l.initialized = true → ∃ s, slot? S i = some s ∧ l.slot.Le s

/-- A shape with the locals as they have become has them as they were. -/
theorem Covers.of_raised {locals locals' : List Local} {S : Shape} (h : Covers locals' S)
    (hraised : LocalsRaised locals locals') : Covers locals S := by
  intro i l hl hinit
  obtain ⟨l', hl', hraise⟩ := exists_slot?_of_forall₂ hraised hl
  obtain ⟨s, hs, hle⟩ := h i l' hl' (hraise.initialized ▸ hinit)
  exact ⟨s, hs, hraise.slot_le.trans hle⟩

/-- More slots on top leave the locals in theirs. -/
theorem Covers.append {locals : List Local} {S : Shape} (h : Covers locals S) (X : Shape) :
    Covers locals (X ++ S) := by
  intro i l hl hinit
  obtain ⟨s, hs, hle⟩ := h i l hl hinit
  exact ⟨s, slot?_append_of_some hs, hle⟩

/-- A shape has the locals in their slots and, if it has to be exact, nothing above them. -/
structure Suits (exact : Bool) (locals : List Local) (S : Shape) : Prop where
  /-- The locals are in their slots. -/
  covers : Covers locals S
  /-- There is nothing above them. -/
  length : exact = true → S.length = locals.length

theorem Suits.of_raised {exact : Bool} {locals locals' : List Local} {S : Shape}
    (h : Suits exact locals' S) (hraised : LocalsRaised locals locals') : Suits exact locals S :=
  ⟨h.covers.of_raised hraised, fun he => (h.length he).trans hraised.length_eq.symm⟩

/-- **What a clean step appends**: code that leads from one point to another wherever the locals are
in their slots.  No locals are added.  The code of a statement may declare locals of its own, so it
works only where the stack is as high as there are locals; this is what `exact` says. -/
structure Emission (exact : Bool) (bps : List Blueprint) (b : Builder) (bps' : List Blueprint)
    (b' : Builder) (p : Point) (code : Code) (q : Point) : Prop where
  /-- What it does to the builder. -/
  grown : Grown bps b bps' b' code
  /-- The locals stay, though more of them may be captured. -/
  locals : LocalsRaised b.context.locals b'.context.locals
  /-- What the code does. -/
  flow : ∀ S, Suits exact b'.context.locals S → Flow (b'.env bps') S p code (some q)

namespace Emission

variable {exact : Bool} {bps bps₁ bps₂ : List Blueprint} {b b₁ b₂ : Builder} {p q r : Point}
  {code c₁ c₂ : Code}

theorem refl (h : Sound bps b) (p : Point) : Emission exact bps b bps b p [] p :=
  ⟨.refl h, LocalsRaised.refl _, fun _ _ => .nil (.refl p)⟩

/-- One step after another. -/
theorem append (h₁ : Emission exact bps b bps₁ b₁ p c₁ q)
    (h₂ : Emission exact bps₁ b₁ bps₂ b₂ q c₂ r) :
    Emission exact bps b bps₂ b₂ p (c₁ ++ c₂) r where
  grown := h₁.grown.trans h₂.grown
  locals := h₁.locals.trans h₂.locals
  flow S hS := by
    have hfirst := h₁.flow S (hS.of_raised h₂.locals)
    exact (hfirst.mono (h₂.grown.env_le h₁.grown.sound) (Shape.Le.refl S)).append (h₂.flow S hS)

/-- The code works above any operands. -/
theorem rebase {X Y : Shape} {st st' : Stage}
    (h : Emission false bps b bps₁ b₁ ⟨X, st⟩ code ⟨Y, st'⟩) (Z : Shape) :
    Emission exact bps b bps₁ b₁ ⟨X ++ Z, st⟩ code ⟨Y ++ Z, st'⟩ :=
  ⟨h.grown, h.locals, fun S hS => (h.flow (Z ++ S) ⟨hS.covers.append Z, by simp⟩).rebase⟩

/-- A step that appends nothing and changes nothing that code refers to. -/
theorem of_grown (h : Grown bps b bps₁ b₁ []) (hlocals : b₁.context.locals = b.context.locals)
    (p : Point) : Emission exact bps b bps₁ b₁ p [] p :=
  ⟨h, hlocals ▸ LocalsRaised.refl _, fun _ _ => .nil (.refl p)⟩

/-- Taking a token appends nothing. -/
theorem take (h : Sound bps b) (p : Point) : Emission exact bps b bps b.take p [] p :=
  of_grown (.take h) rfl p

/-- Then a token is taken. -/
theorem thenTake (h : Emission exact bps b bps₁ b₁ p code q) :
    Emission exact bps b bps₁ b₁.take p code q := by
  have := h.append (take h.grown.sound q)
  rwa [List.append_nil] at this

/-- An instruction without operands. -/
theorem emit (h : Sound bps b) {op : Opcode} (line : Nat)
    (hruns : ∀ S, Covers b.context.locals S → Runs (b.env bps) S op [] p q) :
    Emission exact bps b bps (b.emit op line) p [⟨op, [], line⟩] q :=
  ⟨.emit h op line, LocalsRaised.refl _, fun S hS => .of_runs (hruns S hS.covers) line⟩

/-- An instruction with one operand byte. -/
theorem emitWith (h : Sound bps b) {op : Opcode} {operand : UInt8} (line : Nat)
    (hruns : ∀ S, Covers b.context.locals S → Runs (b.env bps) S op [operand] p q) :
    Emission exact bps b bps (b.emitWith op operand line) p [⟨op, [operand], line⟩] q :=
  ⟨.emitWith h op operand line, LocalsRaised.refl _, fun S hS => .of_runs (hruns S hS.covers) line⟩

/-- An instruction with two operand bytes. -/
theorem emitWith₂ (h : Sound bps b) {op : Opcode} {x y : UInt8} (line : Nat)
    (hruns : ∀ S, Covers b.context.locals S → Runs (b.env bps) S op [x, y] p q) :
    Emission exact bps b bps ((b.emitWith op x line).emitByte y line) p [⟨op, [x, y], line⟩] q := by
  refine ⟨?_, LocalsRaised.refl _, fun S hS => .of_runs (hruns S hS.covers) line⟩
  have happends := Chunk.Appends.addInstruction b.chunk op x line
  have hgrown := Grown.withChunk h (Chunk.Appends.addByte (a := []) happends y) (List.prefix_refl _)
    h.contexts.1.constants
  exact hgrown

/-- A step whose code is passed over if the value on top counts as false. -/
theorem conditional {X : Shape} {line : Nat} {chunk : Chunk} (hb : Sound bps b)
    (h : Emission exact bps (b.emitJump .jumpIfFalse line) bps₁ b₁ (.at (.operand :: X)) code
      (.at (.operand :: X)))
    (hpatch : b₁.chunk.patchJump b.chunk.size = .ok chunk) :
    Emission exact bps b bps₁ (b₁.withChunk chunk) (.at (.operand :: X))
      (⟨.jumpIfFalse, distanceBytes code.extent, line⟩ :: code) (.at (.operand :: X)) := by
  have hgrown := (Grown.emitJump hb .jumpIfFalse line).trans h.grown
  obtain ⟨hlimit, hpatched, henv⟩ := Grown.patchJump [] hgrown hpatch rfl
  refine ⟨hpatched, h.locals, fun S hS => ?_⟩
  rw [henv]
  exact (h.flow S hS).conditional hlimit

/-- Two steps, of which the second is done if the value on top counts as false, and the first
otherwise. -/
theorem branch {X Y : Shape} {line line' : Nat} {chunk chunk' : Chunk} (hb : Sound bps b)
    (h₁ : Emission exact bps (b.emitJump .jumpIfFalse line) bps₁ b₁
      (.at (.operand :: X)) c₁ (.at Y))
    (hpatch : (b₁.emitJump .jump line').chunk.patchJump b.chunk.size = .ok chunk)
    (h₂ : Emission exact bps₁ ((b₁.emitJump .jump line').withChunk chunk) bps₂ b₂
      (.at (.operand :: X)) c₂ (.at Y))
    (hpatch' : b₂.chunk.patchJump b₁.chunk.size = .ok chunk') :
    Emission exact bps b bps₂ (b₂.withChunk chunk') (.at (.operand :: X))
      (⟨.jumpIfFalse, distanceBytes (c₁.extent + Chunk.jumpLength), line⟩ ::
        (c₁ ++ ⟨.jump, distanceBytes c₂.extent, line'⟩ :: c₂)) (.at Y) := by
  obtain ⟨hlimit, hlanded, henv⟩ := Grown.landed hb h₁.grown hpatch
  have hwhole := hlanded.trans h₂.grown
  rw [List.cons_append, List.append_assoc, List.singleton_append] at hwhole
  have hsize := ((Grown.emitJump hb .jumpIfFalse line).trans h₁.grown).code.size_eq
  obtain ⟨hlimit', hpatched, henv'⟩ := Grown.patchJump
    (⟨.jumpIfFalse, distanceBytes (c₁.extent + Chunk.jumpLength), line⟩ :: c₁) hwhole hpatch'
    (by rw [hsize]; simp [Instruction.size])
  refine ⟨hpatched, h₁.locals.trans h₂.locals, fun S hS => ?_⟩
  rw [henv']
  have hle := h₂.grown.env_le hlanded.sound
  rw [henv] at hle
  exact Flow.branch ((h₁.flow S (hS.of_raised h₂.locals)).mono hle (Shape.Le.refl S))
    (h₂.flow S hS) hlimit hlimit'

/-- A step that is repeated until the condition in front of it counts as false. -/
theorem loop {X : Shape} {line : Nat} {chunk chunk' : Chunk}
    (hc : Emission exact bps b bps₁ b₁ (.at X) c₁ (.at (.operand :: X)))
    (ha : Emission exact bps₁ (b₁.emitJump .jumpIfFalse line) bps₂ b₂ (.at (.operand :: X)) c₂
      (.at X))
    (hloop : b₂.chunk.addLoop b.chunk.size line = .ok chunk)
    (hpatch : (b₂.withChunk chunk).chunk.patchJump b₁.chunk.size = .ok chunk') :
    Emission exact bps b bps₂ (((b₂.withChunk chunk).withChunk chunk').emit .pop line) (.at X)
      (c₁ ++ ⟨.jumpIfFalse, distanceBytes (c₂.extent + Chunk.jumpLength), line⟩ ::
        (c₂ ++ ⟨.loop,
          distanceBytes (c₁.extent + Chunk.jumpLength + c₂.extent + Chunk.jumpLength), line⟩ ::
          [⟨.pop, [], line⟩]))
      (.at X) := by
  have hleave := Grown.emitJump hc.grown.sound .jumpIfFalse line
  have hbody := hc.grown.trans (hleave.trans ha.grown)
  -- The loop goes back over the condition, the jump and the body.
  obtain ⟨-, hback, happends, hconstants⟩ := Chunk.Appends.addLoop hloop
  have hsize : b₂.chunk.size + Chunk.jumpLength - b.chunk.size
      = c₁.extent + Chunk.jumpLength + c₂.extent + Chunk.jumpLength := by
    rw [hbody.code.size_eq]
    simp [Instruction.size, Chunk.jumpLength]
    omega
  rw [hsize] at hback happends
  have hagain : Grown bps₂ b₂ bps₂ (b₂.withChunk chunk) _ := Grown.withChunk ha.grown.sound happends
    (hconstants ▸ List.prefix_refl _) (hconstants ▸ ha.grown.sound.contexts.1.constants)
  have hwhole := hbody.trans hagain
  rw [List.append_assoc, List.append_assoc, List.singleton_append] at hwhole
  -- The jump behind the condition is patched over the body and the loop.
  obtain ⟨hforward, hpatched, henv⟩ := Grown.patchJump c₁ hwhole hpatch hc.grown.code.size_eq
  have hextent : (c₂ ++ [⟨.loop, distanceBytes
      (c₁.extent + Chunk.jumpLength + c₂.extent + Chunk.jumpLength), line⟩] : Code).extent
      = c₂.extent + Chunk.jumpLength := by
    simp [Instruction.size, Chunk.jumpLength]
  rw [hextent] at hforward hpatched
  have hdropped := Grown.emit hpatched.sound .pop line
  have hall := hpatched.trans hdropped
  rw [List.append_assoc, List.cons_append, List.append_assoc, List.singleton_append] at hall
  refine ⟨hall, hc.locals.trans ha.locals, fun S hS => ?_⟩
  have hle : (b₁.env bps₁).Le (((b₂.withChunk chunk).withChunk chunk').env bps₂) := by
    rw [henv]
    exact (hleave.trans (ha.grown.trans hagain)).env_le hc.grown.sound
  have hle' : (b₂.env bps₂).Le (((b₂.withChunk chunk).withChunk chunk').env bps₂) := by
    rw [henv]
    exact hagain.env_le ha.grown.sound
  exact Flow.loop ((hc.flow S (hS.of_raised ha.locals)).mono hle (Shape.Le.refl S))
    ((ha.flow S hS).mono hle' (Shape.Le.refl S)) (.of_runs .pop line) hforward hback

end Emission

/-! ## Variables -/

/-- Some function at hand or around has a local of a name. -/
def Visible (name : String) (contexts : List FunctionContext) : Prop :=
  ∃ c ∈ contexts, ∃ l ∈ c.locals, l.name = name

/-- A local that is not found is not there. -/
theorem FunctionContext.not_mem_of_findLocal? {name : String} {locals : List Local}
    (h : findLocal? name locals = none) : ∀ l ∈ locals, l.name ≠ name := by
  induction locals with
  | nil => simp
  | cons l rest ih =>
    rw [findLocal?] at h
    split at h
    · simp at h
    · next hname =>
      intro l' hl'
      rcases List.mem_cons.1 hl' with rfl | hl'
      · exact hname
      · exact ih h l' hl'

/-- How the variable of a name is reached. -/
inductive Reached (b : Builder) (Γ : Env) (name : String) : Build.Access → Prop
  | slot {i : UInt8} {l : Local} (hl : slot? b.context.locals i.toNat = some l)
      (hname : l.name = name) (hinit : l.initialized = true) :
      Reached b Γ name ⟨.getLocal, .setLocal, i⟩
  | cell {i : UInt8} (h : Γ.captures[i.toNat]? = some (.ofName name)) :
      Reached b Γ name ⟨.getUpvalue, .setUpvalue, i⟩
  | global {i : UInt8} (h : Γ.Names i name) (hnone : ¬ Visible name (b.context :: b.enclosing)) :
      Reached b Γ name ⟨.getGlobal, .setGlobal, i⟩

/-- **What looking a variable up does.**  Nothing is appended, and the variable is reached where its
name says. -/
theorem Build.Clean.reached {bps : List Blueprint} {b b' : Builder} {token : Token}
    {access : Build.Access} (h : Build.Clean (Build.resolve token) b access b') (hb : Sound bps b)
    (hderived : token.lexeme = "super" → Derived (b.context :: b.enclosing)) :
    Grown bps b bps b' [] ∧ b'.context.locals = b.context.locals ∧
      Reached b (b'.env bps) token.lexeme access := by
  -- A local of this function, a captured variable, or a global.
  rcases h.of_resolve with ⟨slot, hlocal, rfl, rfl⟩ |
    ⟨hlocal, index, context, enclosing, hfound, rfl, rfl⟩ |
    ⟨hlocal, index, context, enclosing, chunk, hfound, hadd, rfl, rfl⟩
  · obtain ⟨l, hl, hname, hinit⟩ := FunctionContext.resolveLocal_some hb.contexts.1.sized.1 hlocal
    exact ⟨.refl hb, rfl, .slot hl hname hinit⟩
  · have hfound := resolveCapture_found hb.linked hb.rooted hb.contexts.sized hderived hfound
    refine ⟨{ Grown.refl hb with
      sound := { hb with
        contexts := hb.contexts.raised (.cons hfound.raised hfound.around)
        linked := hfound.linked
        rooted := hfound.rooted }
      kind := congrArg Function.kind hfound.raised.function
      arity := congrArg Function.arity hfound.raised.function
      captureCount := congrArg Function.captureCount hfound.raised.function
      depth := hfound.raised.depth
      enclosing := hfound.around
      captures := hfound.raised.captures
      constants := ?_
      code := ?_ }, hfound.locals, .cell hfound.kind⟩
    · show b.context.function.chunk.constants.toList <+: context.function.chunk.constants.toList
      rewrite [hfound.raised.function]
      exact List.prefix_refl _
    · show b.context.function.chunk.Appends context.function.chunk []
      rw [hfound.raised.function]
      exact .refl _
  · obtain ⟨rfl, rfl, hnone⟩ := resolveCapture_none hfound
    obtain ⟨hgrown, hname⟩ := Grown.addName hb hadd
    refine ⟨hgrown, rfl, .global hname ?_⟩
    rintro ⟨c, hc, l, hl, hlname⟩
    rcases List.mem_cons.1 hc with rfl | hc
    · exact FunctionContext.not_mem_of_findLocal? (FunctionContext.resolveLocal_none hlocal) l hl
        hlname
    · exact FunctionContext.not_mem_of_findLocal? (hnone c hc) l hl hlname

namespace Reached

variable {b : Builder} {Γ : Env} {name : String} {access : Build.Access} {S : Shape}

/-- **An access reads what its name stands for**: a callee or a receiver only by its own name, and a
value of the program by a name that no local has or that belongs to a value. -/
theorem reads (h : Reached b Γ name access) (hS : Covers b.context.locals S) :
    ∃ k, Reads Γ S access.getOp access.index k ∧
      (k = .ofName name ∨ k = .value ∧ ¬ Visible name (b.context :: b.enclosing)) := by
  cases h with
  | slot hl hname hinit =>
    obtain ⟨s, hs, hle⟩ := hS _ _ hl hinit
    refine ⟨s.kind, .fromSlot hs, .inl ?_⟩
    rw [← hname]
    exact hle.1.symm
  | cell h => exact ⟨_, .fromCell h, .inl rfl⟩
  | global h hnone => exact ⟨_, .fromGlobal h, .inr ⟨rfl, hnone⟩⟩

/-- An access by the name of a value may be written to. -/
theorem writes (h : Reached b Γ name access) (hS : Covers b.context.locals S)
    (hname : SlotKind.ofName name = .value) : Writes Γ S access.setOp access.index := by
  cases h with
  | slot hl hl' hinit =>
    obtain ⟨s, hs, hle⟩ := hS _ _ hl hinit
    refine .toSlot hs ?_
    rw [← hle.1, ← hname, ← hl']
    rfl
  | cell h => exact .toCell (hname ▸ h)
  | global h hnone => exact .toGlobal h

end Reached

end ScriptVM
