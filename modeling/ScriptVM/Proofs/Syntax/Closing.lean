/-
# What the end of a scope drops

A scope is a row of parts, each of which declares at most one local before it appends code.  At the
end of the scope there is one instruction for each of these locals, the last one first; it closes
the local over if some closure made since its declaration captures it, and drops it otherwise
(`drops`).

Main statement: `Program.scopes_close`, about all scopes of a source that compiles.
-/
import ScriptVM.Proofs.Syntax.Acceptance
import ScriptVM.Proofs.Syntax.Stretches

namespace ScriptVM

open Build

/-! ## Rows of parts -/

/-- A clean run of parts in a row, with the variable that each declares and the code that each
appends. -/
inductive Rows : List (Option String × Build Unit) → Builder → List Code → Builder → Prop where
  /-- No part is left. -/
  | nil (b : Builder) : Rows [] b [] b
  /-- One part, and those behind it. -/
  | cons {name? : Option String} {step : Build Unit} {parts : List (Option String × Build Unit)}
      {b b₁ b₂ : Builder} {code : Code} {codes : List Code} (hrun : Clean step b () b₁)
      (hcode : Stretch b (freshLocal b.context.depth true name?) code b₁)
      (hrest : Rows parts b₁ codes b₂) : Rows ((name?, step) :: parts) b (code :: codes) b₂

/-- The locals that a row of parts declares, the last one first: each is marked if the code from
its own part on captures it. -/
def rowLocals (depth : Nat) : Nat → List (Option String) → List Code → List Local
  | slot, none :: names, _ :: codes => rowLocals depth slot names codes
  | slot, some name :: names, code :: codes =>
    rowLocals depth (slot + 1) names codes ++
      [⟨name, depth, true, Code.takesSlot (code ++ codes.flatten) slot⟩]
  | _, _, _ => []

/-- **The instructions that end a scope**, for variables declared in a row from a slot on and the
code of each part: one for each variable, the last one first.  A variable is closed over if the code
from its own part on makes a closure that captures its slot. -/
def drops (line : Nat) : Nat → List (Option String) → List Code → Code
  | slot, none :: names, _ :: codes => drops line slot names codes
  | slot, some _ :: names, code :: codes =>
    drops line (slot + 1) names codes ++
      [⟨if Code.takesSlot (code ++ codes.flatten) slot then .closeUpvalue else .pop, [], line⟩]
  | _, _, _ => []

/-- The instructions that drop the locals of a row are those of its locals. -/
theorem drops_eq_map (line depth slot : Nat) (names : List (Option String)) (codes : List Code) :
    drops line slot names codes =
      (rowLocals depth slot names codes).map fun l => ⟨dropOp l, [], line⟩ := by
  induction names generalizing slot codes with
  | nil => cases codes <;> rfl
  | cons name? names ih =>
    cases codes with
    | nil => cases name? <;> rfl
    | cons code codes =>
      cases name? with
      | none => exact ih slot codes
      | some name =>
        rw [drops, rowLocals, List.map_append, ih (slot + 1) codes]
        rfl

/-- The locals of a row are of one depth. -/
theorem depth_of_mem_rowLocals {depth slot : Nat} {names : List (Option String)}
    {codes : List Code} {l : Local} (h : l ∈ rowLocals depth slot names codes) :
      l.depth = depth := by
  induction names generalizing slot codes with
  | nil => cases codes <;> simp [rowLocals] at h
  | cons name? names ih =>
    cases codes with
    | nil => cases name? <;> simp [rowLocals] at h
    | cons code codes =>
      cases name? with
      | none => exact ih h
      | some name =>
        rw [rowLocals, List.mem_append, List.mem_singleton] at h
        rcases h with h | rfl
        · exact ih h
        · rfl

namespace Rows

variable {parts : List (Option String × Build Unit)} {b b' : Builder} {codes : List Code}

/-- The whole row but its declarations. -/
theorem carries (h : Rows parts b codes b') (hb : Tidy b) :
    Carries b b' ∧ b'.context.depth = b.context.depth ∧
      b.chunk.Appends b'.chunk codes.flatten ∧
      b.chunk.constants.toList <+: b'.chunk.constants.toList ∧
      ∀ i ∈ codes.flatten, i.Formed b'.functions b'.chunk.constants := by
  induction h with
  | nil b => exact ⟨.refl hb, rfl, .refl _, List.prefix_refl _, by simp⟩
  | cons hrun hcode _ ih =>
    obtain ⟨hcarries, hdepth, happends, hconstants, hformed⟩ := ih hcode.tidy
    refine ⟨hcode.toCarries.trans hcarries, hdepth.trans hcode.depth, ?_,
      hcode.constants.trans hconstants, ?_⟩
    · rw [List.flatten_cons]
      exact hcode.appends.trans happends
    · intro i hi
      rw [List.flatten_cons, List.mem_append] at hi
      rcases hi with hi | hi
      · exact (hcode.formed i hi).mono hcarries.functions hconstants
      · exact hformed i hi

/-- **The locals behind a row**: those that it declares, each with its mark, on those of before. -/
theorem locals (h : Rows parts b codes b') (hdepth : b.context.depth ≠ 0) :
    b'.context.locals =
      rowLocals b.context.depth b.context.locals.length (parts.map Prod.fst) codes ++
        markSlots (Code.takesSlot codes.flatten) b.context.locals := by
  induction h with
  | nil b => exact (markSlots_false _).symm
  | @cons name? step parts b b₁ b₂ code codes hrun hcode _ ih =>
    have hlocals := hcode.locals
    rw [ih (hcode.depth ▸ hdepth), hcode.depth, List.map_cons, List.flatten_cons]
    cases name? with
    | none =>
      rw [freshLocal, List.nil_append] at hlocals
      rw [rowLocals, hlocals, length_markSlots, markSlots_markSlots]
      congr 1
      exact markSlots_congr fun i _ => (Code.takesSlot_append code codes.flatten i).symm
    | some name =>
      rw [freshLocal_some hdepth, List.singleton_append, markSlots] at hlocals
      rw [rowLocals, hlocals, List.length_cons, length_markSlots, markSlots, markSlots_markSlots,
        length_markSlots, List.append_assoc, List.singleton_append, Code.takesSlot_append]
      congr 2
      exact markSlots_congr fun i _ => (Code.takesSlot_append code codes.flatten i).symm

end Rows

/-! ## Scopes -/

/-- A scope: the builder where it begins, and its parts, each with the variable that it declares. -/
structure BlockScope where
  /-- The builder where the scope begins. -/
  before : Builder
  /-- Its parts. -/
  parts : List (Option String × Build Unit)

/-- **A scope is closed as it should be.**  Its parts are built in a row, each appending its code;
then there is one instruction for each local that they declare; then the locals are those of before,
of which just those are marked that the code of the scope captures. -/
def BlockScope.Closes (s : BlockScope) : Prop :=
  ∃ codes inside after,
    Rows s.parts (s.before.withDepth (s.before.context.depth + 1)) codes inside ∧
    Clean endScope inside () after ∧
    inside.chunk.Appends after.chunk
      (drops inside.previous.line s.before.context.locals.length (s.parts.map Prod.fst) codes) ∧
    after.context.locals = markSlots (Code.takesSlot codes.flatten) s.before.context.locals ∧
    after.context.depth = s.before.context.depth

/-- Dropping locals one by one. -/
theorem Passage.of_dropAll {locals : List Local} {line : Nat} {b b' : Builder} {u : PUnit}
    (h : Clean (locals.forM fun l => emitAt (dropOp l) line) b u b') (hb : Tidy b) :
    Passage b [] (locals.map fun l => ⟨dropOp l, [], line⟩) b' ∧
      Code.Open (locals.map fun l => ⟨dropOp l, [], line⟩) := by
  induction locals generalizing b with
  | nil =>
    obtain rfl := h.forM_nil
    exact ⟨.refl hb, Code.open_nil⟩
  | cons l rest ih =>
    obtain ⟨_, b₁, hemit, h⟩ := h.forM_cons
    obtain rfl := hemit.of_emitAt
    have hop : dropOp l ≠ .closure ∧ (dropOp l).operandLength = 0 := by
      rw [dropOp]
      split <;> exact ⟨by simp, rfl⟩
    have hfirst := Passage.emit hb hop.1 hop.2 line
    obtain ⟨hrest, hopen⟩ := ih h hfirst.tidy
    exact ⟨hfirst.append hrest, .cons hop.1 hopen⟩

/-- **The end of a scope**, behind a row of its parts. -/
theorem BlockScope.closes_of_clean {s : BlockScope} {codes : List Code} {inside after : Builder}
    (hb : Tidy s.before)
    (hrows : Rows s.parts (s.before.withDepth (s.before.context.depth + 1)) codes inside)
    (hend : Clean endScope inside () after) :
    s.Closes ∧ (∃ code, Stretch s.before [] code after) ∧ after.classes = inside.classes := by
  have hstart : Tidy (s.before.withDepth (s.before.context.depth + 1)) :=
    hb.withDepth (Nat.le_succ _)
  obtain ⟨hcarries, hdepth, happends, hconstants, hformed⟩ := hrows.carries hstart
  have hlocals := hrows.locals (Nat.succ_ne_zero _)
  have hold : ∀ l ∈ markSlots (Code.takesSlot codes.flatten) s.before.context.locals,
      l.depth ≤ s.before.context.depth := by
    intro l hl
    obtain ⟨l₀, hl₀, hraised⟩ := exists_of_mem_markSlots hl
    rw [hraised.depth]
    exact hb.depths s.before.context List.mem_cons_self l₀ hl₀
  have hdrop := hend.of_endScope hlocals hdepth (fun l hl => depth_of_mem_rowLocals hl) hold
  -- The builder once the locals of the scope are given up.
  have hleft : Carries inside ((inside.withDepth s.before.context.depth).withLocals
      (markSlots (Code.takesSlot codes.flatten) s.before.context.locals)) := by
    have hcontext := hcarries.tidy.context
    refine .withContext hcarries.tidy
      ⟨?_, hcontext.captures, hcontext.constants, hcontext.nodup⟩ hold rfl
    show (markSlots _ _).length ≤ _
    rw [length_markSlots]
    exact hb.context.locals
  obtain ⟨hdropped, hopen⟩ := Passage.of_dropAll hdrop hleft.tidy
  rw [← drops_eq_map] at hdropped hopen
  have hafter : after.context.locals =
      markSlots (Code.takesSlot codes.flatten) s.before.context.locals :=
    hdropped.locals_eq hopen
  refine ⟨⟨codes, inside, after, hrows, hend, hdropped.appends, hafter, hdropped.depth⟩,
    ⟨codes.flatten ++
      drops inside.previous.line s.before.context.locals.length (s.parts.map Prod.fst) codes, ?_⟩,
    hdropped.classes⟩
  exact {
    tidy := hdropped.tidy
    functions := hcarries.functions.trans hdropped.functions
    captures := hcarries.captures.trans hdropped.captures
    around := hcarries.around.trans (hleft.around.trans hdropped.around hdropped.captures)
      hdropped.captures
    appends := happends.trans hdropped.appends
    formed := by
      intro i hi
      rcases List.mem_append.1 hi with hi | hi
      · exact (hformed i hi).mono hdropped.functions hdropped.constants
      · exact hdropped.formed i hi
    constants := hconstants.trans hdropped.constants
    depth := hdropped.depth
    locals := by
      rw [hafter, List.nil_append]
      apply markSlots_congr
      intro i _
      rw [Code.takesSlot_append]
      exact (Bool.or_false _).symm.trans (congrArg _ (hopen.takesSlot i).symm) }

/-! ## The scopes of a program -/

/-- The parts of a block: its declarations, and its closing brace. -/
def Decl.parts (ds : List Decl) : List (Option String × Build Unit) :=
  ds.map (fun d => (d.name?, d.build)) ++ [(none, pass)]

namespace Build

/-- A conditional statement up to its block; its line, and its jump over the block. -/
def branchStart (condition : Build Unit) : Build (Nat × Nat) := do
  condition
  let line ← previousLine
  pass
  let toElse ← emitJump .jumpIfFalse line
  emitAt .pop line
  return (line, toElse)

/-- A conditional statement up to its alternative; its jump over the alternative. -/
def branchMiddle (condition body : Build Unit) : Build Nat := do
  let (line, toElse) ← branchStart condition
  enclosed body
  let toEnd ← emitJump .jump line
  landAndDrop toElse line
  return toEnd

/-- A conditional is all of it but the last patch, and then that patch. -/
theorem branch_eq (condition body alternative : Build Unit) :
    branch condition body alternative = (do
      let toEnd ← branchMiddle condition body
      alternative
      patchJump toEnd) := by
  simp only [branch, branchMiddle, branchStart, bind_assoc, pure_bind]

/-- A loop up to its block; where it starts, its line, and its jump over the block. -/
def cycleStart (condition : Build Unit) : Build (Nat × Nat × Nat) := do
  let start ← codeSize
  condition
  let line ← previousLine
  pass
  let toEnd ← emitJump .jumpIfFalse line
  emitAt .pop line
  return (start, line, toEnd)

/-- A loop is its start, its block, and the jumps back and over it. -/
theorem cycle_eq (condition body : Build Unit) :
    cycle condition body = (do
      let (start, line, toEnd) ← cycleStart condition
      enclosed body
      emitLoop start line
      landAndDrop toEnd line) := by
  simp only [cycle, cycleStart, bind_assoc, pure_bind]

/-- A function declaration up to its body; the index of its name if it is global, and its line. -/
def functionStart (name : Token) (parameters : List Token) : Build (Option UInt8 × Nat) := do
  pass
  let name? ← newName name
  let label := (← get).previous.lexeme
  markInitialized
  let line ← routineStart label .function (parameterList parameters)
  return (name?, line)

/-- A class up to its superclass. -/
def classStart (name : Token) : Build Unit := do
  newClass name
  beginClass

/-- A class without a superclass, up to its members. -/
def plainStart (name : Token) : Build Unit := do
  classStart name
  readVariable name
  pass

/-- A class with a superclass, up to the scope of the superclass. -/
def parentStart (name parent : Token) : Build Unit := do
  classStart name
  pass
  pass
  refuse parent .inheritFromSelf (parent.lexeme = name.lexeme)
  readVariable parent

/-- The scope of a superclass up to the members of the class. -/
def superStart (name parent : Token) : Build Unit := do
  markSuperclass
  addLocal "super" parent
  defineVariable none
  readVariable name
  emitAt .inherit parent.line
  readVariable name
  pass

/-- Leaves the innermost class. -/
def leaveClass : Build Unit :=
  modify fun b => { b with classes := b.classes.tail }

/-- What is in the scope of a superclass. -/
def superBody (name parent : Token) (members : Build Unit) : Build Unit := do
  superStart name parent
  members
  pass
  emit .pop
  leaveClass

/-- A member up to its body; the index of its name, and its line. -/
def memberStart (name : Token) (kind : FunctionKind) (parameters : Build Unit) :
    Build (UInt8 × Nat) := do
  let index ← nameConstant name
  let line ← routineStart name.lexeme kind parameters
  return (index, line)

end Build

mutual

/-- The scopes of a declaration or statement that is built from a builder on, in the order in which
they begin.  The body of a function is no scope of its own, since its locals are never dropped. -/
def Decl.scopes : Decl → Builder → List BlockScope
  | .classDecl name none ms, b =>
    Member.scopesAll ms (Build.after (plainStart name) (Build.after pass b))
  | .classDecl name (some parent) ms, b =>
    let before := Build.after (parentStart name parent) (Build.after pass b)
    ⟨before, [(some "super", superBody name parent (Member.buildAll ms))]⟩ ::
      Member.scopesAll ms (Build.after (superStart name parent) (Build.after beginScope before))
  | .func name ps ds, b => Decl.scopesAll ds (Build.after (functionStart name ps) b)
  | .ifThen e ds, b =>
    let before := Build.after (branchStart e.build) (Build.after pass b)
    ⟨before, Decl.parts ds⟩ :: Decl.scopesAll ds (Build.after beginScope before)
  | .ifElse e ds d, b =>
    let before := Build.after (branchStart e.build) (Build.after pass b)
    let behind := Build.after (branchMiddle e.build (Decl.buildAll ds)) (Build.after pass b)
    (⟨before, Decl.parts ds⟩ :: Decl.scopesAll ds (Build.after beginScope before)) ++
      d.scopes (Build.after pass behind)
  | .loop e ds, b =>
    let before := Build.after (cycleStart e.build) (Build.after pass b)
    ⟨before, Decl.parts ds⟩ :: Decl.scopesAll ds (Build.after beginScope before)
  | .block ds, b =>
    let before := Build.after pass b
    ⟨before, Decl.parts ds⟩ :: Decl.scopesAll ds (Build.after beginScope before)
  | _, _ => []

/-- The scopes of declarations in a row. -/
def Decl.scopesAll : List Decl → Builder → List BlockScope
  | [], _ => []
  | d :: ds, b => d.scopes b ++ Decl.scopesAll ds (Build.after d.build b)

/-- The scopes of a member of a class. -/
def Member.scopes : Member → Builder → List BlockScope
  | .property name ds, b =>
    Decl.scopesAll ds (Build.after (memberStart name .method (pure ()))
      (Build.after pass (Build.after pass b)))
  | .method name ps ds, b =>
    Decl.scopesAll ds (Build.after (memberStart name (methodKind name) (parameterList ps))
      (Build.after pass b))

/-- The scopes of members in a row. -/
def Member.scopesAll : List Member → Builder → List BlockScope
  | [], _ => []
  | m :: ms, b => m.scopes b ++ Member.scopesAll ms (Build.after m.build b)

end

/-! ## Declarations close their scopes -/

/-- A step of which every clean run declares a variable and then appends code, and closes all its
scopes. -/
structure Introduces (step : Build Unit) (name? : Option String)
    (scopes : Builder → List BlockScope) : Prop where
  /-- It keeps all complaints. -/
  cumulative : Cumulative step
  /-- What a clean run does. -/
  runs : ∀ {b b' : Builder} {u : Unit}, Clean step b u b' → Tidy b →
    ∃ code, Passage b (freshLocal b.context.depth true name?) code b'
  /-- It closes all its scopes. -/
  closes : ∀ {b b' : Builder} {u : Unit}, Clean step b u b' → Tidy b → ∀ s ∈ scopes b, s.Closes

/-- A straight step declares nothing and closes no scope. -/
theorem Straight.introduces {step : Build Unit} (h : Straight step) :
    Introduces step none fun _ => [] where
  cumulative := h.cumulative
  runs := by
    intro b b' u hrun hb
    obtain ⟨code, hpassage, -⟩ := h.runs hrun hb
    exact ⟨code, hpassage⟩
  closes := by simp

/-- Each of some declarations does what it should. -/
def IntroducesAll (ds : List Decl) : Prop :=
  ∀ d ∈ ds, Introduces d.build d.name? d.scopes

namespace IntroducesAll

variable {ds : List Decl} {b b' : Builder} {u : Unit}

/-- Declarations in a row. -/
theorem rows (hds : IntroducesAll ds) (h : Clean (Decl.buildAll ds) b u b') (hb : Tidy b) :
    ∃ codes, Rows (ds.map fun d => (d.name?, d.build)) b codes b' ∧ b'.classes = b.classes := by
  induction ds generalizing b with
  | nil =>
    unfold Decl.buildAll at h
    obtain ⟨-, rfl⟩ := h.of_pure
    exact ⟨[], .nil b, rfl⟩
  | cons d ds ih =>
    unfold Decl.buildAll at h
    obtain ⟨_, b₁, hrun, h⟩ := h.bind
    obtain ⟨code, hpassage⟩ := (hds d List.mem_cons_self).runs hrun hb
    obtain ⟨codes, hrows, hclasses⟩ :=
      ih (fun d hd => hds d (List.mem_cons_of_mem _ hd)) h hpassage.tidy
    exact ⟨code :: codes, .cons hrun hpassage.toStretch hrows, hclasses.trans hpassage.classes⟩

/-- Declarations that close their scopes close all of them. -/
theorem closesAll (hds : IntroducesAll ds) (h : Clean (Decl.buildAll ds) b u b') (hb : Tidy b) :
    ∀ s ∈ Decl.scopesAll ds b, s.Closes := by
  induction ds generalizing b with
  | nil => simp [Decl.scopesAll]
  | cons d ds ih =>
    unfold Decl.buildAll at h
    obtain ⟨_, b₁, hrun, h⟩ := h.bind
    have hd := hds d List.mem_cons_self
    obtain ⟨code, hpassage⟩ := hd.runs hrun hb
    intro s hs
    rw [Decl.scopesAll, List.mem_append, after_of_ok hrun.1] at hs
    rcases hs with hs | hs
    · exact hd.closes hrun hb s hs
    · exact ih (fun d hd => hds d (List.mem_cons_of_mem _ hd)) h hpassage.tidy s hs

/-- Declarations leave what is around their function in order. -/
theorem bears (hds : IntroducesAll ds) : Bears (Decl.buildAll ds) where
  cumulative := inferInstance
  runs := by
    intro b b' u h hb _
    obtain ⟨codes, hrows, hclasses⟩ := hds.rows h hb
    obtain ⟨hcarries, hdepth, -⟩ := hrows.carries hb
    exact ⟨hcarries, hdepth, hclasses⟩

end IntroducesAll

/-- One more part continues a row. -/
theorem Rows.concat {parts : List (Option String × Build Unit)} {b b₁ b₂ : Builder}
    {codes : List Code} (name? : Option String) {step : Build Unit} {code : Code}
    (h : Rows parts b codes b₁) (hrun : Clean step b₁ () b₂)
    (hcode : Stretch b₁ (freshLocal b₁.context.depth true name?) code b₂) :
    Rows (parts ++ [(name?, step)]) b (codes ++ [code]) b₂ := by
  induction h with
  | nil b => exact .cons hrun hcode (.nil _)
  | cons hrun₁ hcode₁ _ ih => exact .cons hrun₁ hcode₁ (ih hrun hcode)

/-- The scopes of a block. -/
def Decl.blockScopes (ds : List Decl) (b : Builder) : List BlockScope :=
  ⟨b, Decl.parts ds⟩ :: Decl.scopesAll ds (Build.after beginScope b)

/-- **A block closes its scope**, and those inside it. -/
theorem introduces_enclosed {ds : List Decl} (hds : IntroducesAll ds) :
    Introduces (enclosed (Decl.buildAll ds)) none (Decl.blockScopes ds) := by
  have hwhole : ∀ {b b' : Builder} {u : Unit}, Clean (enclosed (Decl.buildAll ds)) b u b' → Tidy b →
      (∃ code, Passage b [] code b') ∧ ∀ s ∈ Decl.blockScopes ds b, s.Closes := by
    intro b b' u h hb
    unfold enclosed at h
    obtain ⟨_, b₁, hbegin, h⟩ := h.bind
    have hafter := after_of_ok hbegin.1
    obtain rfl := hbegin.of_beginScope
    have hstart : Tidy (b.withDepth (b.context.depth + 1)) := hb.withDepth (Nat.le_succ _)
    obtain ⟨_, b₂, hrun, h⟩ := h.bind
    obtain ⟨_, b₃, hpass, hend⟩ := h.bind
    obtain ⟨codes, hrows, hclasses⟩ := hds.rows hrun hstart
    have htidy := (hrows.carries hstart).1.tidy
    have htaken : Passage b₂ [] [] b₃ := by
      obtain rfl := hpass.of_pass
      exact .take htidy
    have hparts := hrows.concat none hpass htaken.toStretch
    obtain ⟨hcloses, ⟨code, hstretch⟩, hdropped⟩ :=
      BlockScope.closes_of_clean (s := ⟨b, Decl.parts ds⟩) hb hparts hend
    refine ⟨⟨code, hstretch, ?_⟩, ?_⟩
    · exact hdropped.trans (htaken.classes.trans hclasses)
    · intro s hs
      rw [Decl.blockScopes, hafter] at hs
      rcases List.mem_cons.1 hs with rfl | hs
      · exact hcloses
      · exact hds.closesAll hrun hstart s hs
  exact ⟨inferInstance, fun h hb => (hwhole h hb).1, fun h hb => (hwhole h hb).2⟩

/-! ## Conditional statements and loops -/

instance (condition : Build Unit) [Cumulative condition] : Cumulative (branchStart condition) := by
  unfold branchStart
  infer_instance

instance (condition body : Build Unit) [Cumulative condition] [Cumulative body] :
    Cumulative (branchMiddle condition body) := by
  unfold branchMiddle
  infer_instance

instance (condition : Build Unit) [Cumulative condition] : Cumulative (cycleStart condition) := by
  unfold cycleStart
  infer_instance

/-- A conditional statement up to its block ends with a jump and the dropping of the condition. -/
theorem of_branchStart {condition : Build Unit} {b b₁ : Builder} {line toElse : Nat}
    (hcondition : Straight condition) (h : Clean (branchStart condition) b (line, toElse) b₁)
    (hb : Tidy b) :
    ∃ b₀ code, Passage b [] code b₀ ∧ toElse = b₀.chunk.size ∧
      Passage b₀ [] [⟨.jumpIfFalse, [0xFF, 0xFF], line⟩, ⟨.pop, [], line⟩] b₁ := by
  have := hcondition.cumulative
  unfold branchStart at h
  obtain ⟨_, b₂, hrun, h⟩ := h.bind
  obtain ⟨code, hcode, -⟩ := hcondition.runs hrun hb
  obtain ⟨here, _, hline, h⟩ := h.bind
  obtain ⟨-, rfl⟩ := hline.of_previousLine
  obtain ⟨_, _, hpass, h⟩ := h.bind
  obtain rfl := hpass.of_pass
  obtain ⟨_, _, hjump, h⟩ := h.bind
  obtain ⟨rfl, rfl⟩ := hjump.of_emitJump
  obtain ⟨_, _, hpop, h⟩ := h.bind
  obtain rfl := hpop.of_emitAt
  obtain ⟨hpair, rfl⟩ := h.of_pure
  obtain ⟨rfl, rfl⟩ := Prod.mk.inj hpair
  have htake := hcode.append (.take hcode.tidy)
  have hjumped := Passage.jumpIfFalse htake.tidy here
  exact ⟨b₂.take, _, htake, rfl, hjumped.append (.pop hjumped.tidy here)⟩

/-- A conditional statement up to its alternative ends with a jump and the dropping of the
condition. -/
theorem of_branchMiddle {condition : Build Unit} {ds : List Decl} {b b₁ : Builder} {toEnd : Nat}
    (hcondition : Straight condition) (hds : IntroducesAll ds)
    (h : Clean (branchMiddle condition (Decl.buildAll ds)) b toEnd b₁) (hb : Tidy b) :
    (∃ b₀ code front line back, Passage b [] code b₀ ∧ toEnd = b₀.chunk.size + Code.extent front ∧
        Passage b₀ [] (front ++ ⟨.jump, [0xFF, 0xFF], line⟩ :: back) b₁) ∧
      ∀ s ∈ Decl.blockScopes ds (Build.after (branchStart condition) b), s.Closes := by
  have := hcondition.cumulative
  unfold branchMiddle at h
  obtain ⟨⟨line, toElse⟩, b₂, hstart, h⟩ := h.bind
  obtain ⟨b₀, code, hcode, rfl, hguard⟩ := of_branchStart hcondition hstart hb
  obtain ⟨_, b₃, hblock, h⟩ := h.bind
  obtain ⟨body, hbody⟩ := (introduces_enclosed hds).runs hblock hguard.tidy
  obtain ⟨_, _, hjump, h⟩ := h.bind
  obtain ⟨rfl, rfl⟩ := hjump.of_emitJump
  obtain ⟨_, b₄, hland, h⟩ := h.bind
  obtain ⟨rfl, rfl⟩ := h.of_pure
  unfold landAndDrop at hland
  obtain ⟨_, _, hpatch, hpop⟩ := hland.bind
  obtain ⟨chunk, hpatched, rfl⟩ := hpatch.of_patchJump
  obtain rfl := hpop.of_emitAt
  have hwhole := (hguard.append hbody).append (.jump hbody.tidy line)
  obtain ⟨distance, hlength, hlanded⟩ : ∃ distance : List UInt8, distance.length = 2 ∧
      Passage b₀ [] (⟨.jumpIfFalse, distance, line⟩ :: ⟨.pop, [], line⟩ ::
        (body ++ [⟨.jump, [0xFF, 0xFF], line⟩])) ((b₃.emitJump .jump line).withChunk chunk) := by
    have hpassage := Passage.patch (a := []) hwhole (by simp) hpatched
    exact ⟨_, length_distanceBytes _, hpassage⟩
  refine ⟨⟨b₀, code, ⟨.jumpIfFalse, distance, line⟩ :: ⟨.pop, [], line⟩ :: body, line,
    [⟨.pop, [], line⟩], hcode, ?_, ?_⟩, ?_⟩
  · rw [(hguard.append hbody).appends.size_eq]
    simp [Instruction.size, hlength]
  · have hend := hlanded.append (.pop hlanded.tidy line)
    simpa using hend
  · rw [after_of_ok hstart.1]
    exact (introduces_enclosed hds).closes hblock hguard.tidy

/-- A conditional closes the scopes of its block and of its alternative. -/
theorem introduces_branch {condition : Build Unit} {ds : List Decl} {alternative : Build Unit}
    {scopes : Builder → List BlockScope} (hcondition : Straight condition)
    (hds : IntroducesAll ds) (halternative : Introduces alternative none scopes) :
    Introduces (branch condition (Decl.buildAll ds) alternative) none fun b =>
      Decl.blockScopes ds (Build.after (branchStart condition) b) ++
        scopes (Build.after (branchMiddle condition (Decl.buildAll ds)) b) := by
  have := hcondition.cumulative
  have := halternative.cumulative
  refine ⟨inferInstance, ?_, ?_⟩
  · intro b b' u h hb
    rw [branch_eq] at h
    obtain ⟨_, b₁, hmiddle, h⟩ := h.bind
    obtain ⟨⟨b₀, code, front, line, back, hcode, rfl, hfront⟩, -⟩ :=
      of_branchMiddle hcondition hds hmiddle hb
    obtain ⟨_, b₂, hrun, hpatch⟩ := h.bind
    obtain ⟨code', hcode'⟩ := halternative.runs hrun hfront.tidy
    obtain ⟨chunk, hpatched, rfl⟩ := hpatch.of_patchJump
    have hwhole := hfront.append hcode'
    rw [List.append_assoc, List.cons_append] at hwhole
    exact ⟨_, hcode.append (hwhole.patch (by simp) hpatched)⟩
  · intro b b' u h hb s hs
    rw [branch_eq] at h
    obtain ⟨_, b₁, hmiddle, h⟩ := h.bind
    obtain ⟨⟨b₀, code, front, line, back, hcode, rfl, hfront⟩, hcloses⟩ :=
      of_branchMiddle hcondition hds hmiddle hb
    obtain ⟨_, b₂, hrun, -⟩ := h.bind
    rcases List.mem_append.1 hs with hs | hs
    · exact hcloses s hs
    · rw [after_of_ok hmiddle.1] at hs
      exact halternative.closes hrun hfront.tidy s hs

/-- A loop up to its block ends with a jump and the dropping of the condition. -/
theorem of_cycleStart {condition : Build Unit} {b b₁ : Builder} {start line toEnd : Nat}
    (hcondition : Straight condition) (h : Clean (cycleStart condition) b (start, line, toEnd) b₁)
    (hb : Tidy b) :
    ∃ b₀ code, Passage b [] code b₀ ∧ toEnd = b₀.chunk.size ∧
      Passage b₀ [] [⟨.jumpIfFalse, [0xFF, 0xFF], line⟩, ⟨.pop, [], line⟩] b₁ := by
  have := hcondition.cumulative
  have hsame : cycleStart condition = (do
      let start ← codeSize
      let (line, toEnd) ← branchStart condition
      return (start, line, toEnd)) := by
    simp only [cycleStart, branchStart, bind_assoc, pure_bind]
  rw [hsame] at h
  obtain ⟨_, _, hsize, h⟩ := h.bind
  obtain ⟨-, rfl⟩ := hsize.of_codeSize
  obtain ⟨⟨line', toEnd'⟩, b₂, hstart, h⟩ := h.bind
  obtain ⟨hpair, rfl⟩ := h.of_pure
  obtain ⟨-, hpair⟩ := Prod.mk.inj hpair
  obtain ⟨rfl, rfl⟩ := Prod.mk.inj hpair
  exact of_branchStart hcondition hstart hb

/-- A loop closes the scopes of its block. -/
theorem introduces_cycle {condition : Build Unit} {ds : List Decl} (hcondition : Straight condition)
    (hds : IntroducesAll ds) :
    Introduces (cycle condition (Decl.buildAll ds)) none fun b =>
      Decl.blockScopes ds (Build.after (cycleStart condition) b) := by
  have := hcondition.cumulative
  have hwhole : ∀ {b b' : Builder} {u : Unit}, Clean (cycle condition (Decl.buildAll ds)) b u b' →
      Tidy b → (∃ code, Passage b [] code b') ∧
        ∀ s ∈ Decl.blockScopes ds (Build.after (cycleStart condition) b), s.Closes := by
    intro b b' u h hb
    rw [cycle_eq] at h
    obtain ⟨⟨start, line, toEnd⟩, b₂, hstart, h⟩ := h.bind
    obtain ⟨b₀, code, hcode, rfl, hguard⟩ := of_cycleStart hcondition hstart hb
    obtain ⟨_, b₃, hblock, h⟩ := h.bind
    obtain ⟨body, hbody⟩ := (introduces_enclosed hds).runs hblock hguard.tidy
    obtain ⟨_, _, hloop, hland⟩ := h.bind
    obtain ⟨chunk, hlooped, rfl⟩ := hloop.of_emitLoop
    obtain ⟨i, -, hback⟩ := Passage.addLoop hbody.tidy hlooped
    unfold landAndDrop at hland
    obtain ⟨_, _, hpatch, hpop⟩ := hland.bind
    obtain ⟨chunk', hpatched, rfl⟩ := hpatch.of_patchJump
    obtain rfl := hpop.of_emitAt
    have hrepeated := (hguard.append hbody).append hback
    have hlanded := Passage.patch (a := []) hrepeated (by simp) hpatched
    refine ⟨⟨_, hcode.append (hlanded.append (.pop hlanded.tidy line))⟩, ?_⟩
    rw [after_of_ok hstart.1]
    exact (introduces_enclosed hds).closes hblock hguard.tidy
  exact ⟨inferInstance, fun h hb => (hwhole h hb).1, fun h hb => (hwhole h hb).2⟩

/-! ## Functions and members -/

section

set_option synthInstance.maxSize 512

/-- A function declaration declares its name, and closes the scopes of its body. -/
theorem introduces_func {ds : List Decl} (name : Token) (parameters : List Token)
    (hds : IntroducesAll ds) :
    Introduces (Decl.func name parameters ds).build (some name.lexeme)
      (Decl.func name parameters ds).scopes where
  cumulative := inferInstance
  runs := by
    intro b b' u h hb
    unfold Decl.build at h
    obtain ⟨_, _, hpass, h⟩ := h.bind
    obtain rfl := hpass.of_pass
    have htake := Passage.take hb
    obtain ⟨name?, b₁, hname, h⟩ := h.bind
    obtain ⟨hnamed, hindex⟩ := hname.of_newName htake.tidy
    replace h := h.bind_get
    obtain ⟨_, b₂, hmark, h⟩ := h.bind
    have hmarked := hnamed.markInitialized hmark
    obtain ⟨_, b₃, hroutine, hdefine⟩ := h.bind
    obtain ⟨code, hcode⟩ :=
      Passage.of_routine (bears_parameterList parameters) hds.bears hroutine hmarked.tidy
    obtain ⟨code', hdefined⟩ := (hmarked.append hcode).define hindex hdefine
    exact ⟨_, htake.prepend Code.open_nil hdefined⟩
  closes := by
    intro b b' u h hb
    -- The scopes of the body are those of the builder that stands at its beginning.
    have hsame : (Decl.func name parameters ds).build = (do
        let (name?, line) ← functionStart name parameters
        Decl.buildAll ds
        pass
        emitClosure (← endFunction) line
        defineVariable name?) := by
      simp only [Decl.build, routine_eq, functionStart, bind_assoc, pure_bind]
    rw [hsame] at h
    obtain ⟨⟨name?, line⟩, b₁, hstart, h⟩ := h.bind
    obtain ⟨_, b₂, hrun, -⟩ := h.bind
    have htidy : Tidy b₁ := by
      unfold functionStart at hstart
      obtain ⟨_, _, hpass, hstart⟩ := hstart.bind
      obtain rfl := hpass.of_pass
      obtain ⟨name?, b₃, hname, hstart⟩ := hstart.bind
      obtain ⟨hnamed, -⟩ := hname.of_newName (Passage.take hb).tidy
      replace hstart := hstart.bind_get
      obtain ⟨_, b₄, hmark, hstart⟩ := hstart.bind
      obtain ⟨_, b₅, hroutine, hpure⟩ := hstart.bind
      obtain ⟨-, rfl⟩ := hpure.of_pure
      exact ((bears_parameterList parameters).of_routineStart hroutine
        (hnamed.markInitialized hmark).tidy).1.tidy
    intro s hs
    rw [Decl.scopes, after_of_ok hstart.1] at hs
    exact hds.closesAll hrun htidy s hs

/-- A member behind its first tokens: its body in a function of its own, and an instruction that
adds it to the class. -/
theorem introduces_member {ds : List Decl} (name : Token) (kind : FunctionKind)
    {parameters : Build Unit} {op : Opcode} (hparameters : Bears parameters) (hop : op ≠ .closure)
    (hlength : op.operandLength = 1) (hds : IntroducesAll ds) :
    Introduces (do
        let index ← nameConstant name
        routine name.lexeme kind parameters (Decl.buildAll ds)
        emitWithAt op index name.line) none fun b =>
      Decl.scopesAll ds (Build.after (memberStart name kind parameters) b) := by
  have := hparameters.cumulative
  refine ⟨inferInstance, ?_, ?_⟩
  · intro b b' u h hb
    obtain ⟨index, _, hconstant, h⟩ := h.bind
    obtain ⟨chunk, hadd, rfl⟩ := hconstant.of_nameConstant
    have hnamed := Passage.constant hb hadd
    obtain ⟨_, b₂, hroutine, hemit⟩ := h.bind
    obtain ⟨code, hcode⟩ := Passage.of_routine hparameters hds.bears hroutine hnamed.tidy
    obtain rfl := hemit.of_emitWithAt
    have hmade := hnamed.append hcode
    exact ⟨_, hmade.append (.emitWith hmade.tidy hop hlength index name.line)⟩
  · intro b b' u h hb s hs
    have hsame : (do
        let index ← nameConstant name
        routine name.lexeme kind parameters (Decl.buildAll ds)
        emitWithAt op index name.line : Build Unit) = (do
        let (index, line) ← memberStart name kind parameters
        Decl.buildAll ds
        pass
        emitClosure (← endFunction) line
        emitWithAt op index name.line) := by
      simp only [routine_eq, memberStart, bind_assoc, pure_bind]
    rw [hsame] at h
    obtain ⟨⟨index, line⟩, b₁, hstart, h⟩ := h.bind
    obtain ⟨_, b₂, hrun, -⟩ := h.bind
    have htidy : Tidy b₁ := by
      unfold memberStart at hstart
      obtain ⟨index, _, hconstant, hstart⟩ := hstart.bind
      obtain ⟨chunk, hadd, rfl⟩ := hconstant.of_nameConstant
      obtain ⟨_, _, hroutine, hpure⟩ := hstart.bind
      obtain ⟨-, rfl⟩ := hpure.of_pure
      exact (hparameters.of_routineStart hroutine (Passage.constant hb hadd).tidy).1.tidy
    rw [after_of_ok hstart.1] at hs
    exact hds.closesAll hrun htidy s hs

/-- A token in front changes nothing. -/
theorem Introduces.pass {step : Build Unit} {name? : Option String}
    {scopes : Builder → List BlockScope} (h : Introduces step name? scopes) :
    Introduces (Build.pass >>= fun _ => step) name? fun b => scopes (Build.after Build.pass b) := by
  have := h.cumulative
  refine ⟨inferInstance, ?_, ?_⟩
  · intro b b' u hrun hb
    obtain ⟨_, _, hpass, hrun⟩ := hrun.bind
    obtain rfl := hpass.of_pass
    have htake := Passage.take hb
    obtain ⟨code, hcode⟩ := h.runs hrun htake.tidy
    exact ⟨_, htake.prepend Code.open_nil hcode⟩
  · intro b b' u hrun hb s hs
    obtain ⟨_, _, hpass, hrun⟩ := hrun.bind
    rw [after_of_ok hpass.1] at hs
    obtain rfl := hpass.of_pass
    exact h.closes hrun (Passage.take hb).tidy s hs

/-- **A member closes the scopes of its body.** -/
theorem introduces_property {ds : List Decl} (name : Token) (hds : IntroducesAll ds) :
    Introduces (Member.property name ds).build none (Member.property name ds).scopes := by
  have hscopes : (Member.property name ds).scopes = fun b => Decl.scopesAll ds
      (Build.after (memberStart name .method (pure ()))
        (Build.after pass (Build.after pass b))) := by
    funext b
    rw [Member.scopes]
  rw [Member.build, hscopes]
  have hparameters : Bears (pure ()) := (Straight.pure ()).bears
  exact (introduces_member name .method hparameters (by simp) rfl hds).pass.pass

/-- A method closes the scopes of its body. -/
theorem introduces_method {ds : List Decl} (name : Token) (parameters : List Token)
    (hds : IntroducesAll ds) :
    Introduces (Member.method name parameters ds).build none
      (Member.method name parameters ds).scopes := by
  have hscopes : (Member.method name parameters ds).scopes = fun b => Decl.scopesAll ds
      (Build.after (memberStart name (methodKind name) (parameterList parameters))
        (Build.after pass b)) := by
    funext b
    rw [Member.scopes]
  rw [Member.build, hscopes]
  exact (introduces_member name (methodKind name) (bears_parameterList parameters) (by simp) rfl
    hds).pass

/-- One step after another that declares nothing. -/
theorem Introduces.bind {x y : Build Unit} {name? : Option String}
    {scopes scopes' : Builder → List BlockScope} (hx : Introduces x name? scopes)
    (hy : Introduces y none scopes') :
    Introduces (x >>= fun _ => y) name? fun b => scopes b ++ scopes' (Build.after x b) := by
  have := hx.cumulative
  have := hy.cumulative
  refine ⟨inferInstance, ?_, ?_⟩
  · intro b b' u h hb
    obtain ⟨_, b₁, h₁, h₂⟩ := h.bind
    obtain ⟨c₁, hc₁⟩ := hx.runs h₁ hb
    obtain ⟨c₂, hc₂⟩ := hy.runs h₂ hc₁.tidy
    exact ⟨c₁ ++ c₂, hc₁.append hc₂⟩
  · intro b b' u h hb s hs
    obtain ⟨_, b₁, h₁, h₂⟩ := h.bind
    obtain ⟨c₁, hc₁⟩ := hx.runs h₁ hb
    rcases List.mem_append.1 hs with hs | hs
    · exact hx.closes h₁ hb s hs
    · rw [after_of_ok h₁.1] at hs
      exact hy.closes h₂ hc₁.tidy s hs

/-- Members in a row. -/
theorem introduces_members {ms : List Member} (hms : ∀ m ∈ ms, Introduces m.build none m.scopes) :
    Introduces (Member.buildAll ms) none (Member.scopesAll ms) := by
  induction ms with
  | nil =>
    have hscopes : Member.scopesAll [] = fun _ => [] := by
      funext b
      rw [Member.scopesAll]
    rw [Member.buildAll, hscopes]
    exact (Straight.pure ()).introduces
  | cons m ms ih =>
    have hscopes : Member.scopesAll (m :: ms) = fun b =>
        m.scopes b ++ Member.scopesAll ms (Build.after m.build b) := by
      funext b
      rw [Member.scopesAll]
    rw [Member.buildAll, hscopes]
    exact (hms m List.mem_cons_self).bind (ih fun m hm => hms m (List.mem_cons_of_mem _ hm))

/-! ## Classes -/

/-- The name of a class is declared before the class is made. -/
theorem Passage.of_newClass {name : Token} {b b' : Builder} {u : Unit}
    (h : Clean (newClass name) b u b') (hb : Tidy b) :
    ∃ code, Passage b (freshLocal b.context.depth true (some name.lexeme)) code b' := by
  unfold newClass at h
  obtain ⟨_, _, hpass, h⟩ := h.bind
  obtain rfl := hpass.of_pass
  have htake := Passage.take hb
  obtain ⟨index, _, hconstant, h⟩ := h.bind
  obtain ⟨chunk, hadd, rfl⟩ := hconstant.of_nameConstant
  have hnamed := htake.append (.constant htake.tidy hadd)
  obtain ⟨_, b₂, hdeclare, h⟩ := h.bind
  have hdeclared : Passage b (freshLocal b.context.depth false (some name.lexeme)) _ b₂ :=
    hnamed.prepend (.append Code.open_nil Code.open_nil)
      (Passage.of_declareVariable hdeclare hnamed.tidy)
  obtain ⟨_, _, hemit, h⟩ := h.bind
  obtain rfl := hemit.of_emitWithAt
  have hemitted : Passage b₂ [] [⟨.newClass, [index], name.line⟩]
      (b₂.emitWith .newClass index name.line) :=
    .emitWith hdeclared.tidy (by simp) rfl index name.line
  have hmade := hdeclared.append hemitted
  have hdepth := hmade.depth
  replace h := h.bind_get
  rw [hdepth] at h
  refine hmade.define ?_ h
  by_cases hzero : b.context.depth = 0
  · simp [hzero]
  · simp [hzero]

/-- A class up to its superclass is on top of the classes around. -/
theorem Stretch.of_classStart {name : Token} {b b' : Builder} {u : Unit}
    (h : Clean (classStart name) b u b') (hb : Tidy b) :
    (∃ code, Stretch b (freshLocal b.context.depth true (some name.lexeme)) code b') ∧
      b'.classes = ⟨false⟩ :: b.classes := by
  unfold classStart at h
  obtain ⟨_, b₁, hnew, hbegin⟩ := h.bind
  obtain ⟨code, hcode⟩ := Passage.of_newClass hnew hb
  obtain rfl := hbegin.of_modify
  refine ⟨⟨_, hcode.toStretch.append (.of_context hcode.tidy rfl rfl rfl)⟩, ?_⟩
  show _ :: b₁.classes = _
  rw [hcode.classes]

instance (name : Token) : Cumulative (classStart name) := by
  unfold classStart
  infer_instance

instance (name : Token) : Cumulative (plainStart name) := by
  unfold plainStart
  infer_instance

instance (name parent : Token) : Cumulative (parentStart name parent) := by
  unfold parentStart
  infer_instance

instance (name parent : Token) : Cumulative (superStart name parent) := by
  unfold superStart
  infer_instance

/-- The end of a class, where its class is on top of the classes around. -/
theorem Build.Clean.of_endClass {c : ClassContext} {classes : List ClassContext} {b b' : Builder}
    {u : Unit} (h : Clean endClass b u b') (hclasses : b.classes = c :: classes) :
    Clean (if c.hasSuperclass then endScope else pure ()) { b with classes } u b' := by
  have hrun : endClass b = (if b.classes.head?.any (·.hasSuperclass) then endScope else pure ())
      { b with classes := b.classes.tail } := rfl
  rw [Clean, hrun, hclasses] at h
  exact h

/-- Behind the start of a class, expressions may follow. -/
theorem Stretch.of_classStart_then {α : Type} {name : Token} {rest : Build α} {b b' : Builder}
    {a : α} (hrest : Straight rest) (h : Clean (classStart name >>= fun _ => rest) b a b')
    (hb : Tidy b) :
    (∃ code, Stretch b (freshLocal b.context.depth true (some name.lexeme)) code b') ∧
      b'.classes = ⟨false⟩ :: b.classes := by
  have := hrest.cumulative
  obtain ⟨_, b₁, hstart, h⟩ := h.bind
  obtain ⟨⟨code, hcode⟩, hclasses⟩ := Stretch.of_classStart hstart hb
  obtain ⟨code', hcode', -⟩ := hrest.runs h hcode.tidy
  exact ⟨⟨_, hcode.append hcode'.toStretch⟩, hcode'.classes.trans hclasses⟩

/-- The members of a class up to the end of the class. -/
theorem of_membersEnd {ms : List Member} {b b' : Builder} {u : Unit} {c : ClassContext}
    {classes : List ClassContext} (hms : ∀ m ∈ ms, Introduces m.build none m.scopes)
    (h : Clean (do
      Member.buildAll ms
      pass
      emit .pop
      endClass) b u b') (hb : Tidy b) (hclasses : b.classes = c :: classes) :
    ∃ code b₁, Passage b [] code b₁ ∧
      Clean (Member.buildAll ms >>= fun _ => pass >>= fun _ => emit .pop) b () b₁ ∧
      Clean (if c.hasSuperclass then endScope else pure ()) { b₁ with classes } u b' := by
  have hmembers := introduces_members hms
  obtain ⟨_, b₂, hrun, h⟩ := h.bind
  obtain ⟨c₂, hc₂⟩ := hmembers.runs hrun hb
  obtain ⟨_, b₃, hpass, h⟩ := h.bind
  have hc₃ : Passage b₂ [] [] b₃ := by
    obtain rfl := hpass.of_pass
    exact .take hc₂.tidy
  obtain ⟨_, b₄, hpop, hend⟩ := h.bind
  have hc₄ : ∃ code, Passage b₃ [] code b₄ := by
    have hstraight : Straight (emit .pop) := .emit (by simp) rfl
    obtain ⟨code, hcode, -⟩ := hstraight.runs hpop hc₃.tidy
    exact ⟨code, hcode⟩
  obtain ⟨c₄, hc₄⟩ := hc₄
  have hwhole := (hc₂.append hc₃).append hc₄
  exact ⟨_, b₄, hwhole, hrun.then (hpass.then hpop),
    hend.of_endClass (hwhole.classes.trans hclasses)⟩

/-- A class without a superclass. -/
theorem introduces_plain {ms : List Member} (name : Token)
    (hms : ∀ m ∈ ms, Introduces m.build none m.scopes) :
    Introduces (Decl.classDecl name none ms).build (some name.lexeme)
      (Decl.classDecl name none ms).scopes := by
  have hstraight : Straight (readVariable name >>= fun _ => pass) :=
    (Straight.readVariable name).bind fun _ => .pass
  have hbody : Introduces (do
      plainStart name
      Member.buildAll ms
      pass
      emit .pop
      endClass) (some name.lexeme) fun b =>
        Member.scopesAll ms (Build.after (plainStart name) b) := by
    refine ⟨inferInstance, ?_, ?_⟩
    · intro b b' u h hb
      obtain ⟨_, b₁, hstart, h⟩ := h.bind
      obtain ⟨⟨code, hcode⟩, hclasses⟩ := Stretch.of_classStart_then hstraight hstart hb
      obtain ⟨code', b₂, hcode', -, hend⟩ := of_membersEnd hms h hcode.tidy hclasses
      obtain ⟨-, rfl⟩ := Clean.of_pure hend
      have hleft : Stretch b₂ [] [] { b₂ with classes := b.classes } :=
        .of_context hcode'.tidy rfl rfl rfl
      exact ⟨_, (hcode.append hcode'.toStretch).append hleft, rfl⟩
    · intro b b' u h hb
      obtain ⟨_, b₁, hstart, h⟩ := h.bind
      obtain ⟨⟨code, hcode⟩, -⟩ := Stretch.of_classStart_then hstraight hstart hb
      obtain ⟨_, b₂, hrun, -⟩ := h.bind
      rw [after_of_ok hstart.1]
      exact (introduces_members hms).closes hrun hcode.tidy
  have hbuild : (Decl.classDecl name none ms).build = (do
      pass
      plainStart name
      Member.buildAll ms
      pass
      emit .pop
      endClass) := by
    simp only [Decl.build, classOf, plainStart, classStart, bind_assoc, pure_bind]
  have hscopes : (Decl.classDecl name none ms).scopes = fun b =>
      Member.scopesAll ms (Build.after (plainStart name) (Build.after pass b)) := by
    funext b
    rw [Decl.scopes]
  rw [hbuild, hscopes]
  exact hbody.pass

/-- The scope of a superclass up to the members: the superclass is its local. -/
theorem Stretch.of_superStart {name parent : Token} {b b' : Builder} {u : Unit}
    {classes : List ClassContext} (h : Clean (superStart name parent) b u b') (hb : Tidy b)
    (hdepth : b.context.depth ≠ 0) (hclasses : b.classes = ⟨false⟩ :: classes) :
    (∃ code, Stretch b (freshLocal b.context.depth true (some "super")) code b') ∧
      b'.classes = ⟨true⟩ :: classes := by
  unfold superStart at h
  obtain ⟨_, b₁, hmark, h⟩ := h.bind
  have hmarked : b₁ = { b with classes := ⟨true⟩ :: classes } := by
    rw [← hmark.of_modify, hclasses]
  have hc₁ : Stretch b [] [] b₁ := hmarked ▸ .of_context hb rfl rfl rfl
  obtain ⟨_, b₂, hadd, h⟩ := h.bind
  obtain ⟨hroom, hb₂⟩ := hadd.of_addLocal
  have hc₂ : Passage b₁ (freshLocal b₁.context.depth false (some "super")) [] b₂ := by
    rw [freshLocal_some (hc₁.depth ▸ hdepth), ← hb₂]
    exact .declare hc₁.tidy hroom "super"
  obtain ⟨_, b₃, hdefine, h⟩ := h.bind
  have hc₃ := hc₂.markInitialized hdefine
  have hstraight : Straight (do
      readVariable name
      emitAt .inherit parent.line
      readVariable name
      pass) :=
    (Straight.readVariable name).bind fun _ => (Straight.emitAt (by simp) rfl _).bind fun _ =>
      (Straight.readVariable name).bind fun _ => .pass
  obtain ⟨code, hc₄, -⟩ := hstraight.runs h hc₃.tidy
  have hwhole := hc₁.prepend Code.open_nil (hc₃.append hc₄).toStretch
  rw [hc₁.depth] at hwhole
  refine ⟨⟨_, hwhole⟩, ?_⟩
  rw [hc₄.classes, hc₃.classes, hmarked]

/-- The scopes of a class with a superclass, behind its first token. -/
def Decl.derivedScopes (name parent : Token) (ms : List Member) (b : Builder) : List BlockScope :=
  let before := Build.after (parentStart name parent) b
  ⟨before, [(some "super", superBody name parent (Member.buildAll ms))]⟩ ::
    Member.scopesAll ms (Build.after (superStart name parent) (Build.after beginScope before))

/-- A class with a superclass, behind its first token. -/
theorem introduces_derivedBody {ms : List Member} (name parent : Token)
    (hms : ∀ m ∈ ms, Introduces m.build none m.scopes) :
    Introduces (do
      parentStart name parent
      beginScope
      superStart name parent
      Member.buildAll ms
      pass
      emit .pop
      endClass) (some name.lexeme) (Decl.derivedScopes name parent ms) := by
  have hstraight : Straight (do
      pass
      pass
      refuse parent .inheritFromSelf (parent.lexeme = name.lexeme)
      readVariable parent) :=
    Straight.pass.bind fun _ => Straight.pass.bind fun _ => (Straight.refuse _ _ _).bind fun _ =>
      .readVariable parent
  have hwhole : ∀ {b b' : Builder} {u : Unit}, Clean (do
      parentStart name parent
      beginScope
      superStart name parent
      Member.buildAll ms
      pass
      emit .pop
      endClass) b u b' → Tidy b →
      (∃ code, Passage b (freshLocal b.context.depth true (some name.lexeme)) code b') ∧
        ∀ s ∈ Decl.derivedScopes name parent ms b, s.Closes := by
    intro b b' u h hb
    obtain ⟨_, b₁, hstart, h⟩ := h.bind
    obtain ⟨⟨code, hcode⟩, hclasses⟩ := Stretch.of_classStart_then hstraight hstart hb
    obtain ⟨_, _, hbegin, h⟩ := h.bind
    have hafter := after_of_ok hbegin.1
    obtain rfl := hbegin.of_beginScope
    have hopened : Tidy (b₁.withDepth (b₁.context.depth + 1)) :=
      hcode.tidy.withDepth (Nat.le_succ _)
    obtain ⟨_, b₂, hsuper, h⟩ := h.bind
    obtain ⟨⟨code₂, hcode₂⟩, hclasses₂⟩ :=
      Stretch.of_superStart hsuper hopened (Nat.succ_ne_zero _) hclasses
    have hmembers := h
    obtain ⟨code₃, b₃, hcode₃, hrun, hend⟩ := of_membersEnd hms h hcode₂.tidy hclasses₂
    replace hend : Clean endScope { b₃ with classes := b.classes } () b' := hend
    -- The whole scope is one part, which declares the superclass.
    have hleave : Clean leaveClass b₃ () { b₃ with classes := b.classes } := by
      refine ⟨?_, hend.errors_before⟩
      show EStateM.Result.ok () { b₃ with classes := b₃.classes.tail } = _
      rw [hcode₃.classes, hclasses₂]
      rfl
    have hpart : Clean (superBody name parent (Member.buildAll ms))
        (b₁.withDepth (b₁.context.depth + 1)) () { b₃ with classes := b.classes } := by
      have hsame : superBody name parent (Member.buildAll ms) = (superStart name parent >>= fun _ =>
          (Member.buildAll ms >>= fun _ => pass >>= fun _ => emit .pop) >>= fun _ =>
            leaveClass) := by
        simp only [superBody, bind_assoc]
      rw [hsame]
      exact hsuper.then (hrun.then hleave)
    have hleft : Stretch b₃ [] [] { b₃ with classes := b.classes } :=
      .of_context hcode₃.tidy rfl rfl rfl
    obtain ⟨hcloses, ⟨code₄, hcode₄⟩, hsame⟩ := BlockScope.closes_of_clean
      (s := ⟨b₁, [(some "super", superBody name parent (Member.buildAll ms))]⟩) hcode.tidy
      (.cons hpart ((hcode₂.append hcode₃.toStretch).append hleft) (.nil _)) hend
    refine ⟨⟨_, hcode.append hcode₄, hsame⟩, ?_⟩
    intro s hs
    rw [Decl.derivedScopes, after_of_ok hstart.1, hafter, after_of_ok hsuper.1] at hs
    rcases List.mem_cons.1 hs with rfl | hs
    · exact hcloses
    · obtain ⟨_, b₅, hrun₅, -⟩ := hmembers.bind
      exact (introduces_members hms).closes hrun₅ hcode₂.tidy s hs
  exact ⟨inferInstance, fun h hb => (hwhole h hb).1, fun h hb => (hwhole h hb).2⟩

/-- **A class with a superclass closes the scope of the superclass.** -/
theorem introduces_derived {ms : List Member} (name parent : Token)
    (hms : ∀ m ∈ ms, Introduces m.build none m.scopes) :
    Introduces (Decl.classDecl name (some parent) ms).build (some name.lexeme)
      (Decl.classDecl name (some parent) ms).scopes := by
  have hbuild : (Decl.classDecl name (some parent) ms).build = (do
      pass
      parentStart name parent
      beginScope
      superStart name parent
      Member.buildAll ms
      pass
      emit .pop
      endClass) := by
    simp only [Decl.build, classOf, parentClass, parentStart, superStart, classStart, bind_assoc]
  have hscopes : (Decl.classDecl name (some parent) ms).scopes = fun b =>
      Decl.derivedScopes name parent ms (Build.after pass b) := by
    funext b
    rw [Decl.scopes]
    rfl
  rw [hbuild, hscopes]
  exact (introduces_derivedBody name parent hms).pass

end

/-! ## All declarations -/

/-- The declaration of a variable declares its name. -/
theorem introduces_var (name : Token) (initial : Option Expr) :
    Introduces (Decl.var name initial).build (some name.lexeme) (Decl.var name initial).scopes := by
  have hscopes : (Decl.var name initial).scopes = fun _ => [] := by
    funext b
    simp [Decl.scopes]
  rw [hscopes]
  -- What computes the initial value is an expression, and the declaration surrounds it.
  have hsurround : ∀ value : Build Unit, Straight value → Introduces (do
      pass
      let name? ← newName name
      value
      pass
      defineVariable name?) (some name.lexeme) fun _ => [] := by
    intro value hvalue
    have := hvalue.cumulative
    refine ⟨inferInstance, ?_, by simp⟩
    intro b b' u h hb
    obtain ⟨_, _, hpass, h⟩ := h.bind
    obtain rfl := hpass.of_pass
    have htake := Passage.take hb
    obtain ⟨name?, b₁, hname, h⟩ := h.bind
    obtain ⟨hnamed, hindex⟩ := hname.of_newName htake.tidy
    obtain ⟨_, b₂, hrun, h⟩ := h.bind
    obtain ⟨code, hcode, -⟩ := hvalue.runs hrun hnamed.tidy
    obtain ⟨_, _, hpass, hdefine⟩ := h.bind
    obtain rfl := hpass.of_pass
    obtain ⟨code', hdefined⟩ :=
      ((hnamed.append hcode).append (.take hcode.tidy)).define hindex hdefine
    exact ⟨_, htake.prepend Code.open_nil hdefined⟩
  cases initial with
  | none =>
    rw [Decl.build]
    exact hsurround _ (.emit (by simp) rfl)
  | some value =>
    rw [Decl.build]
    have hvalue := hsurround (pass >>= fun _ => value.build)
      (Straight.pass.bind fun _ => value.straight)
    simpa only [bind_assoc] using hvalue

/-- A `print` statement is straight. -/
theorem straight_print (keyword : Token) (value : Expr) :
    Straight (Decl.print keyword value).build := by
  rw [Decl.build]
  exact Straight.pass.bind fun _ => value.straight.bind fun _ => Straight.pass.bind fun _ =>
    .emitAt (by simp) rfl _

theorem straight_expression (value : Expr) : Straight (Decl.expression value).build := by
  rw [Decl.build]
  exact value.straight.bind fun _ => Straight.pass.bind fun _ => .emit (by simp) rfl

/-- A `return` statement is straight. -/
theorem straight_leave (keyword : Token) (value : Option Expr) :
    Straight (Decl.leave keyword value).build := by
  have hguard : ∀ step : Build Unit, Straight step → Straight (Build.leave keyword step) := by
    intro step hstep
    unfold Build.leave
    refine Straight.pass.bind fun _ => Straight.get.bind fun b => ?_
    split
    · exact .fail keyword _
    · exact .fail keyword _
    · exact hstep
    · exact hstep
  cases value with
  | none =>
    rw [Decl.build]
    exact hguard _ (Straight.pass.bind fun _ => .emitReturn)
  | some value =>
    rw [Decl.build]
    exact hguard _ (value.straight.bind fun _ => Straight.pass.bind fun _ =>
      .emitAt (by simp) rfl _)

/-- A statement without scopes of its own. -/
theorem Straight.introducesDecl {d : Decl} (h : Straight d.build) (hname : d.name? = none)
    (hscopes : ∀ b, d.scopes b = []) : Introduces d.build d.name? d.scopes := by
  rw [hname, show d.scopes = fun _ => [] from funext hscopes]
  exact h.introduces

/-- A conditional without an alternative closes its scopes. -/
theorem introduces_ifThen {ds : List Decl} (condition : Expr) (hds : IntroducesAll ds) :
    Introduces (Decl.ifThen condition ds).build none (Decl.ifThen condition ds).scopes := by
  have hscopes : (Decl.ifThen condition ds).scopes = fun b =>
      Decl.blockScopes ds (Build.after (branchStart condition.build)
        (Build.after pass b)) ++ [] := by
    funext b
    rw [Decl.scopes, List.append_nil]
    rfl
  rw [Decl.build, hscopes]
  exact (introduces_branch condition.straight hds (Straight.pure ()).introduces).pass

/-- A conditional with an alternative closes its scopes. -/
theorem introduces_ifElse {ds : List Decl} {d : Decl} (condition : Expr) (hds : IntroducesAll ds)
    (hd : Introduces d.build none d.scopes) :
    Introduces (Decl.ifElse condition ds d).build none (Decl.ifElse condition ds d).scopes := by
  have hscopes : (Decl.ifElse condition ds d).scopes = fun b =>
      Decl.blockScopes ds (Build.after (branchStart condition.build) (Build.after pass b)) ++
        d.scopes (Build.after pass
          (Build.after (branchMiddle condition.build (Decl.buildAll ds))
            (Build.after pass b))) := by
    funext b
    rw [Decl.scopes]
    rfl
  rw [Decl.build, hscopes]
  exact (introduces_branch condition.straight hds hd.pass).pass

/-- A `while` loop closes its scopes. -/
theorem introduces_loop {ds : List Decl} (condition : Expr) (hds : IntroducesAll ds) :
    Introduces (Decl.loop condition ds).build none (Decl.loop condition ds).scopes := by
  have hscopes : (Decl.loop condition ds).scopes = fun b =>
      Decl.blockScopes ds (Build.after (cycleStart condition.build) (Build.after pass b)) := by
    funext b
    rw [Decl.scopes]
    rfl
  rw [Decl.build, hscopes]
  exact (introduces_cycle condition.straight hds).pass

/-- A block closes its scopes. -/
theorem introduces_block {ds : List Decl} (hds : IntroducesAll ds) :
    Introduces (Decl.block ds).build none (Decl.block ds).scopes := by
  have hscopes : (Decl.block ds).scopes = fun b => Decl.blockScopes ds (Build.after pass b) := by
    funext b
    rw [Decl.scopes]
    rfl
  rw [Decl.build, hscopes]
  exact (introduces_enclosed hds).pass

/-- What is said of the trees that tokens spell. -/
def Nonterminal.Introduced : Nonterminal → Prop
  | .declaration d => Introduces d.build d.name? d.scopes
  | .alternative d => Introduces d.build none d.scopes
  | .conditional d => Introduces d.build none d.scopes ∧ d.name? = none
  | .declarations ds | .block ds => IntroducesAll ds
  | .member m => Introduces m.build none m.scopes
  | .members ms => ∀ m ∈ ms, Introduces m.build none m.scopes
  | _ => True

/-- What can stand behind `else` declares nothing. -/
theorem Derives.name?_alternative {n : Nonterminal} {ts : List Token} (h : Derives n ts) :
    ∀ d, n = .alternative d ∨ n = .conditional d → d.name? = none := by
  induction h with
  | ifThen =>
    rintro d (hd | hd) <;> cases hd
    rfl
  | ifElse _ _ _ _ _ _ ih =>
    rintro d (hd | hd) <;> cases hd
    rw [Decl.name?]
    exact ih _ (.inl rfl)
  | elseIf _ _ ih =>
    rintro d (hd | hd) <;> cases hd
    exact ih _ (.inr rfl)
  | elseBlock =>
    rintro d (hd | hd) <;> cases hd
    rfl
  | _ => rintro d (hd | hd) <;> cases hd

/-- **Every declaration closes its scopes.** -/
theorem Derives.introduced {n : Nonterminal} {ts : List Token} (h : Derives n ts) :
    n.Introduced := by
  induction h with
  | noDeclarations =>
    intro d hd
    simp at hd
  | declarations _ _ ihd ihds =>
    intro d hd
    rcases List.mem_cons.1 hd with rfl | hd
    · exact ihd
    · exact ihds d hd
  | block _ _ _ ih => exact ih
  | @print keyword e =>
    exact (straight_print keyword e).introducesDecl rfl fun b => by simp [Decl.scopes]
  | @leave keyword =>
    exact (straight_leave keyword none).introducesDecl rfl fun b => by simp [Decl.scopes]
  | @leaveWith keyword e =>
    exact (straight_leave keyword (some e)).introducesDecl rfl fun b => by simp [Decl.scopes]
  | conditional _ _ ih =>
    show Introduces _ _ _
    rw [ih.2]
    exact ih.1
  | @ifThen e ds _ _ _ _ _ ihds => exact ⟨introduces_ifThen e ihds, rfl⟩
  | @ifElse e ds _ d _ _ _ _ _ _ hd _ ihds ihd =>
    exact ⟨introduces_ifElse e ihds ihd, hd.name?_alternative d (.inl rfl)⟩
  | elseIf _ _ ih => exact ih.1
  | elseBlock _ ih => exact introduces_block ih
  | @loop _ e _ _ _ _ _ _ _ ihds => exact introduces_loop e ihds
  | blockStatement _ ih => exact introduces_block ih
  | @expression e => exact (straight_expression e).introducesDecl rfl fun b => by simp [Decl.scopes]
  | @var _ name => exact introduces_var name none
  | @varWith _ name _ e => exact introduces_var name (some e)
  | @func _ name ns _ _ _ _ _ _ _ _ ihds => exact introduces_func name ns ihds
  | @computed _ name _ _ _ _ _ ih => exact introduces_property name ih
  | @method name ns _ _ _ _ _ _ _ ihds => exact introduces_method name ns ihds
  | noMembers =>
    intro m hm
    simp at hm
  | members _ _ ihm ihms =>
    intro m hm
    rcases List.mem_cons.1 hm with rfl | hm
    · exact ihm
    · exact ihms m hm
  | @classDecl _ name _ _ _ _ _ _ _ _ _ ih => exact introduces_plain name ih
  | @derivedClass _ name _ parent _ _ _ _ _ _ _ _ _ _ _ ih =>
      exact introduces_derived name parent ih
  | _ => trivial

/-! ## Whole sources -/

/-- A builder is in order at the start. -/
theorem tidy_start (functions : Array Function) (source : String) (items : List ScanItem) :
    Tidy (Builder.start functions source items) where
  orderly := by
    intro c hc
    rw [List.mem_singleton.1 hc]
    exact FunctionContext.orderly_start "main" .script
  depths := by
    intro c hc l hl
    rw [List.mem_singleton.1 hc] at hl ⊢
    rw [List.mem_singleton.1 hl]
    exact Nat.le_refl _
  settled := .nil _

/-- A program is what its declarations and a last return leave. -/
theorem Program.exists_clean_of_compile {source : String} {program : Program}
    (h : Program.compile source = .ok program) :
    ∃ b b', Clean (Build.declarations (2 * (scan source).length + 2))
        (Builder.start #[] source (scan source)) () b ∧
      Clean emitReturn b () b' ∧ b'.finish = .ok program := by
  rw [Program.compile, Program.compileAfter, Builder.complete] at h
  split at h
  · next b' hrun =>
    have herrors : b'.errors = #[] := by
      rw [Builder.finish] at h
      split at h
      · next hempty => simpa using hempty
      · simp at h
    obtain ⟨_, b, hclean, hreturn⟩ := Clean.bind ⟨hrun, herrors⟩
    exact ⟨b, b', hclean, hreturn, h⟩
  · rw [Builder.finish, if_neg (by simp)] at h
    simp at h

/-- **The end of every scope drops what the scope declared, and closes over what was captured.**  A
source that compiles spells declarations, which are built cleanly up to the program; each of their
scopes is closed as it should be. -/
theorem Program.scopes_close {source : String} {program : Program}
    (h : Program.compile source = .ok program) :
    ∃ ds b b', SpellsProgram (tokens source) ds ∧
      Clean (Decl.buildAll ds) (Builder.start #[] source (scan source)) () b ∧
      Clean emitReturn b () b' ∧ b'.finish = .ok program ∧
      ∀ s ∈ Decl.scopesAll ds (Builder.start #[] source (scan source)), s.Closes := by
  obtain ⟨b, b', hclean, hreturn, hfinish⟩ := Program.exists_clean_of_compile h
  obtain ⟨ds, ts, last, hscan, hlast, hds⟩ := spells_of_clean hclean
  have hreads : (Builder.start #[] source (scan source)).Reads (ts ++ [last]) := hscan
  have hparses := parses_declarations hds hlast (length_lt_of_scan hscan)
  have hbuild := (hparses.runs _ hreads () b).1 hclean
  have hintroduced : IntroducesAll ds := hds.introduced
  exact ⟨ds, b, b', ⟨ts, last, tokens_of_scan hscan, hlast, hds⟩, hbuild, hreturn, hfinish,
    hintroduced.closesAll hbuild (tidy_start _ _ _)⟩

/-- A block with two locals, the first of which a function captures, and a class whose method uses
its superclass. -/
def captureSource : String :=
  "class A { m() {} } { var a = 1; func f() { print a; } class B : A { m() { super.m(); } } }"

/-- A program with captured variables closes all its scopes. -/
theorem Program.scopes_close_capture :
    ∃ program ds b b', Program.compile captureSource = .ok program ∧
      SpellsProgram (tokens captureSource) ds ∧
      Clean (Decl.buildAll ds) (Builder.start #[] captureSource (scan captureSource)) () b ∧
      Clean emitReturn b () b' ∧ b'.finish = .ok program ∧
      ∀ s ∈ Decl.scopesAll ds (Builder.start #[] captureSource (scan captureSource)), s.Closes := by
  have hcompiles : (Program.compile captureSource).isOk = true := by decide +kernel
  cases hprogram : Program.compile captureSource with
  | error e =>
    rw [hprogram] at hcompiles
    simp [Except.isOk, Except.toBool] at hcompiles
  | ok program =>
    obtain ⟨ds, b, b', hrest⟩ := Program.scopes_close hprogram
    exact ⟨program, ds, b, b', rfl, hrest⟩

end ScriptVM
