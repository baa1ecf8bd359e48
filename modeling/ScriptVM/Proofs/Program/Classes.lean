/-
# The code of classes

A class is made, kept in a variable, and then read back from it: once to inherit from its
superclass, and once to be given its members.  In between nothing else can have got hold of it, so
the class that is inherited from is another one.

Main statement: `classDeclaration_declares`.  On the way, the class at hand is found where it is
kept (`resolve_readBy`), and its superclass somewhere else (`resolve_avoidedBy`).
-/
import ScriptVM.Proofs.Program.Functions

namespace ScriptVM

/-! ## Where a class is kept -/

/-- The variable of a name is the one in which a class is kept. -/
inductive Houses (b : Builder) (name : String) : Home → Prop
  | global (henclosing : b.enclosing = []) (hlocals : ∀ l ∈ b.context.locals, l.name ≠ name) :
      Houses b name (.global name)
  | slot {j : Nat} {l : Local}
      (h : FunctionContext.findLocal? name b.context.locals = some (j, l))
      (hinit : l.initialized = true) : Houses b name (.slot j)

/-- A local is found below others with other names. -/
theorem FunctionContext.findLocal?_append {name : String} {new old : List Local}
    (h : ∀ l ∈ new, l.name ≠ name) : findLocal? name (new ++ old) = findLocal? name old := by
  induction new with
  | nil => rfl
  | cons l rest ih =>
    rw [List.cons_append, findLocal?, if_neg (h l List.mem_cons_self)]
    exact ih fun l' hl' => h l' (List.mem_cons_of_mem l hl')

theorem FunctionContext.findLocal?_eq_none {name : String} {locals : List Local}
    (h : ∀ l ∈ locals, l.name ≠ name) : findLocal? name locals = none := by
  have hfind := @findLocal?_append name locals [] h
  rwa [List.append_nil] at hfind

/-- A class stays where it is kept when locals of other names are added. -/
theorem Houses.append {b b' : Builder} {name : String} {home : Home} {new : List Local}
    (h : Houses b name home) (henclosing : ContextsRaised b.enclosing b'.enclosing)
    (hlocals : b'.context.locals = new ++ b.context.locals) (hnew : ∀ l ∈ new, l.name ≠ name) :
    Houses b' name home := by
  cases h with
  | global hnone hothers =>
    rw [hnone] at henclosing
    refine .global (List.forall₂_nil_left_iff.1 henclosing) ?_
    rw [hlocals]
    intro l hl
    rcases List.mem_append.1 hl with hl | hl
    · exact hnew l hl
    · exact hothers l hl
  | @slot j kept h hinit =>
    have h' : FunctionContext.findLocal? name b'.context.locals = some (j, kept) := by
      rw [hlocals, FunctionContext.findLocal?_append hnew]
      exact h
    exact .slot h' hinit

/-- Where a class is kept there is a variable. -/
theorem Houses.reads {b : Builder} {name : String} {home : Home} {Γ : Env} {op : Opcode} {i : UInt8}
    {S : Shape} (h : Houses b name home) (hS : Covers b.context.locals S)
    (hread : home.ReadBy Γ op i) : ∃ k, Reads Γ S op i k := by
  cases h with
  | global =>
    obtain ⟨rfl, hnames⟩ := hread
    exact ⟨_, .fromGlobal hnames⟩
  | slot hfind hinit =>
    obtain ⟨rfl, hi⟩ := hread
    obtain ⟨s, hs, -⟩ := hS _ _ (FunctionContext.slot?_of_findLocal? hfind).1 hinit
    rw [← hi] at hs
    exact ⟨_, .fromSlot hs⟩

namespace Build

variable {bps bps' : List Blueprint} {b b' : Builder} {u : Unit} {token : Token} {name : String}
  {home : Home}

/-- **A class is found where it is kept.** -/
theorem resolve_readBy {access : Access} (hb : Sound bps b) (hhome : Houses b token.lexeme home)
    (h : Clean (resolve token) b access b') :
    home.ReadBy (b'.env bps) access.getOp access.index := by
  cases hhome with
  | global henclosing hnone =>
    have hlocal : b.context.resolveLocal token.lexeme = .ok none := by
      rw [FunctionContext.resolveLocal, FunctionContext.findLocal?_eq_none hnone]
    rcases h.of_resolve with ⟨slot, hfound, -, -⟩ | ⟨-, index, context, enclosing, hfound, -, -⟩ |
      ⟨-, index, context, enclosing, chunk, hfound, hadd, rfl, rfl⟩
    · rw [hlocal] at hfound
      simp at hfound
    · rw [henclosing, resolveCapture, Resolution.mk.injEq] at hfound
      simp at hfound
    · obtain ⟨rfl, rfl, -⟩ := resolveCapture_none hfound
      obtain ⟨-, hnames⟩ := Grown.addName hb hadd
      exact ⟨rfl, hnames⟩
  | @slot j l hfind hinit =>
    have hlt : j < 256 := Nat.lt_of_lt_of_le
      (lt_length_of_slot? (FunctionContext.slot?_of_findLocal? hfind).1) hb.contexts.1.sized.1
    have hlocal : b.context.resolveLocal token.lexeme = .ok (some (UInt8.ofNat j)) := by
      rw [FunctionContext.resolveLocal, hfind]
      exact if_pos hinit
    rcases h.of_resolve with ⟨slot, hfound, rfl, -⟩ | ⟨hfound, -⟩ | ⟨hfound, -⟩
    · rw [hlocal] at hfound
      obtain rfl := Option.some.inj (Except.ok.inj hfound)
      exact ⟨rfl, UInt8.toNat_ofNat_of_lt' hlt⟩
    · rw [hlocal] at hfound
      simp at hfound
    · rw [hlocal] at hfound
      simp at hfound

/-- **A variable of another name is not the one in which a class is kept.** -/
theorem resolve_avoidedBy {Γ : Env} {access : Access} (hhome : Houses b name home)
    (h : Reached b Γ token.lexeme access) (hname : token.lexeme ≠ name) :
    home.AvoidedBy Γ access.getOp access.index := by
  cases h with
  | slot hl hl' _ =>
    cases hhome with
    | global => exact fun hop => absurd hop (by simp)
    | slot hfind _ =>
      intro _ hj
      obtain ⟨hslot, hkept⟩ := FunctionContext.slot?_of_findLocal? hfind
      rw [hj, hslot] at hl
      obtain rfl := Option.some.inj hl
      exact hname (hl'.symm.trans hkept)
  | cell _ => cases hhome <;> exact fun hop => absurd hop (by simp)
  | global hnames _ =>
    cases hhome with
    | global => exact fun _ => ⟨_, hnames, hname⟩
    | slot => exact fun hop => absurd hop (by simp)

end Build

/-! ## Members -/

/-- The class at hand is ready for its members: the topmost local is its superclass, if it is
derived, and no superclass otherwise. -/
structure Prepared (derived : Bool) (b : Builder) : Prop where
  /-- A class that has a superclass is derived. -/
  classes : b.classes.head?.any (·.hasSuperclass) = true → derived = true
  /-- The superclass is the topmost local. -/
  locals : ∃ l old, b.context.locals = l :: old ∧ (l.name = "super" → derived = true) ∧
    (derived = true → l.name = "super" ∧ l.initialized = true)

/-- A class stays prepared for its members while code is appended. -/
theorem Grown.prepared {derived : Bool} {bps bps' : List Blueprint} {b b' : Builder} {code : Code}
    (h : Grown bps b bps' b' code) (hraised : LocalsRaised b.context.locals b'.context.locals)
    (hb : Prepared derived b) : Prepared derived b' := by
  refine ⟨fun hsuper => hb.classes (h.classes ▸ hsuper), ?_⟩
  obtain ⟨l, old, hlocals, hname, hderived⟩ := hb.locals
  rw [hlocals] at hraised
  obtain ⟨l', old', hl, -, hlocals'⟩ := List.forall₂_cons_left_iff.1 hraised
  refine ⟨l', old', hlocals', ?_, ?_⟩
  · rw [hl.name]
    exact hname
  · rw [hl.name, hl.initialized]
    exact hderived

theorem Emission.prepared {exact derived : Bool} {bps bps' : List Blueprint} {b b' : Builder}
    {p q : Point} {code : Code} (h : Emission exact bps b bps' b' p code q)
    (hb : Prepared derived b) : Prepared derived b' :=
  h.grown.prepared h.locals hb

/-- In a member the instance is visible, and the superclass can be captured. -/
theorem Prepared.scoped {derived : Bool} {b : Builder} (h : Prepared derived b) (name : String)
    {kind : FunctionKind} (hkind : kind.isMember = true) : Scoped (b.beginFunction name kind) := by
  intro hsuper
  obtain ⟨l, old, hlocals, -, hderived⟩ := h.locals
  obtain ⟨hname, hinit⟩ := hderived (h.classes hsuper)
  have hself : FunctionContext.receiverName kind = "self" := by
    cases kind <;> simp_all [FunctionKind.isMember, FunctionContext.receiverName]
  refine ⟨⟨_, List.mem_cons_self, _, List.mem_singleton_self _, hself⟩,
    .member hkind ?_ hlocals hname hinit⟩
  intro l' hl'
  rw [List.mem_singleton.1 hl', hself]
  decide

/-- A member is made above its class. -/
theorem Prepared.receives {derived : Bool} {b : Builder} {S : Shape} {kind : FunctionKind}
    (h : Prepared derived b) (hkind : kind.isMember = true)
    (hS : S.length = b.context.locals.length + 1) :
    Receives kind b.context.locals S (.held derived) := by
  rw [Receives, if_pos hkind]
  refine ⟨derived, rfl, hS, ?_⟩
  obtain ⟨l, old, hlocals, hname, -⟩ := h.locals
  rw [hlocals]
  rintro _ ⟨⟩
  exact hname

namespace Build

variable {bps bps' : List Blueprint} {b b' : Builder} {u : Unit} {token : Token} {name : String}
  {home : Home}

section

set_option synthInstance.maxSize 512

variable {inner : Phrase → Build Unit} {derived : Bool} [∀ p, Cumulative (inner p)]
  (hdeclaration : EmitsDeclaration (inner .declaration))
include hdeclaration

/-- A function that becomes a member of the class on top. -/
theorem addMember_emits {op : Opcode} {kind : FunctionKind} {hasParameters : Bool} {index : UInt8}
    {line : Nat} {text : String} (hop : op ∈ Opcode.members) (hkind : kind.isMember = true)
    (hinit : op = .method → name = "init" → kind = .initializer)
    (hb : Sound bps b) (hprepared : Prepared derived b) (hnames : (b.env bps).Names index name)
    (h : Clean (function inner text kind hasParameters >>= fun _ => emitWithAt op index line)
      b u b') :
    Emits true bps b b' ⟨[.temp .parent], .held derived⟩ ⟨[.temp .parent], .held derived⟩ := by
  obtain ⟨_, b₁, hfunction, h⟩ := h.bind
  obtain rfl := h.of_emitWithAt
  obtain ⟨bps₁, code, hcloses⟩ :=
    function_closes hdeclaration hb (hprepared.scoped text hkind) hfunction
  have hmember : kind.closureKind = .member := by
    rw [FunctionKind.closureKind, if_pos hkind]
  have hprepared' := hcloses.grown.prepared hcloses.locals hprepared
  have hmade : Emission true bps b bps₁ b₁ ⟨[.temp .parent], .held derived⟩ code
      ⟨[.temp .member, .temp .parent], .adding derived (kind = .initializer)⟩ :=
    ⟨hcloses.grown, hcloses.locals, fun S hS => by
      have hflow := hcloses.flow (.temp .parent :: S) false (.held derived)
        (hS.covers.append [_, _])
        (hprepared'.receives hkind (congrArg (· + 1) (hS.length rfl)))
      rw [hmember] at hflow
      exact hflow.rebase (Y := [.temp .parent])⟩
  have hnames' := (hcloses.grown.env_le hb).constants hnames
  exact hmade.andThen (.emitWith hmade.grown.sound fun _ _ =>
    .addMember hop hnames' fun hop hname => decide_eq_true (hinit hop hname))

/-- A member leaves the class in place. -/
theorem member_emits (hb : Sound bps b) (hprepared : Prepared derived b)
    (h : Clean (member inner) b u b') :
    Emits true bps b b' ⟨[.temp .parent], .held derived⟩ ⟨[.temp .parent], .held derived⟩ := by
  -- Both kinds of members start with a name, which becomes a constant.
  have hnamed : ∀ {b₀ : Builder} {what : Expectation} {step : Token → UInt8 → Build Unit},
      Emission true bps b bps b₀ ⟨[.temp .parent], .held derived⟩ []
        ⟨[.temp .parent], .held derived⟩ →
      (∀ token index, Cumulative (step token index)) →
      Clean (do let token ← expect what; let index ← nameConstant token; step token index)
        b₀ u b' →
      ∃ token index b₁, Emission true bps b bps b₁ ⟨[.temp .parent], .held derived⟩ []
        ⟨[.temp .parent], .held derived⟩ ∧
        (b₁.env bps).Names index token.lexeme ∧ Clean (step token index) b₁ u b' := by
    intro b₀ what step he _ h
    obtain ⟨token, _, hname, h⟩ := h.bind
    obtain ⟨-, -, rfl⟩ := hname.of_expect
    obtain ⟨index, _, hconstant, h⟩ := h.bind
    obtain ⟨chunk, hadd, rfl⟩ := hconstant.of_nameConstant
    obtain ⟨hgrown, hnames⟩ := Grown.addName he.thenTake.grown.sound hadd
    exact ⟨token, index, _, he.thenTake.append (.of_grown hgrown rfl _), hnames, h⟩
  unfold member at h
  obtain ⟨isProperty, b₁, hvar, h⟩ := h.bind
  rcases hvar.of_accept with ⟨rfl, -, rfl⟩ | ⟨rfl, -, rfl⟩
  · obtain ⟨token, index, b₁, he, hnames, h⟩ := hnamed (.take hb _) (fun _ _ => inferInstance) h
    exact he.andThen (addMember_emits hdeclaration (by decide) rfl (by simp) he.grown.sound
      (he.prepared hprepared) hnames h)
  · obtain ⟨token, index, b₁, he, hnames, h⟩ := hnamed (.refl hb _) (fun _ _ => inferInstance) h
    exact he.andThen (addMember_emits hdeclaration (by decide) (by split <;> rfl)
      (fun _ hname => if_pos hname) he.grown.sound (he.prepared hprepared) hnames h)

/-- A round of the loop over members leaves the class in place. -/
theorem memberRound_emits {again : Bool} (hb : Sound bps b) (hprepared : Prepared derived b)
    (h : Clean (memberRound inner) b again b') :
    Emits true bps b b' ⟨[.temp .parent], .held derived⟩ ⟨[.temp .parent], .held derived⟩ := by
  unfold memberRound at h
  obtain ⟨closed, _, hend, h⟩ := h.bind
  obtain ⟨-, rfl⟩ := hend.of_atEnd
  split at h
  · obtain ⟨-, rfl⟩ := h.of_pure
    exact ⟨bps, [], .refl hb _⟩
  · obtain ⟨_, b₁, hmember, h⟩ := h.bind
    obtain ⟨-, rfl⟩ := h.of_pure
    exact member_emits hdeclaration hb hprepared hmember

/-- Any number of members. -/
theorem members_emit (hb : Sound bps b) (hprepared : Prepared derived b)
    (h : Clean (repeatWhile (memberRound inner)) b u b') :
    Emits true bps b b' ⟨[.temp .parent], .held derived⟩ ⟨[.temp .parent], .held derived⟩ := by
  have hround : ∀ b₁ b₂ again,
    Emits true bps b b₁ ⟨[.temp .parent], .held derived⟩ ⟨[.temp .parent], .held derived⟩ →
      Clean (memberRound inner) b₁ again b₂ →
      Emits true bps b b₂ ⟨[.temp .parent], .held derived⟩ ⟨[.temp .parent], .held derived⟩ := by
    rintro b₁ b₂ again ⟨bps₁, code, he⟩ hround
    exact he.andThen (memberRound_emits hdeclaration he.grown.sound (he.prepared hprepared)
      hround)
  obtain ⟨b₁, hb₁, hlast⟩ := h.repeatWhile
    (I := fun b' => Emits true bps b b' ⟨[.temp .parent], .held derived⟩
      ⟨[.temp .parent], .held derived⟩)
    ⟨bps, [], .refl hb _⟩ fun b₁ b₂ => hround b₁ b₂ true
  exact hround b₁ b' false hb₁ hlast

end

/-! ## Superclasses -/

section

set_option synthInstance.maxSize 512

/-- Starting the scope of a superclass. -/
theorem extends_superScope {b₁ b₂ b₃ : Builder} {c : ClassContext} {classes : List ClassContext}
    (hb : Sound bps b) (hclasses : b.classes = c :: classes)
    (hbegin : Clean beginScope b u b₁) (hmark : Clean markSuperclass b₁ u b₂)
    (hadd : Clean (addLocal "super" token) b₂ u b₃)
    (hdefine : Clean (defineVariable none) b₃ u b') :
    Extends bps b bps b' [] ∧ b'.classes = ⟨true⟩ :: classes ∧
      b'.context.depth = b.context.depth + 1 ∧ b'.enclosing = b.enclosing ∧
      b'.env bps = b.env bps ∧
      b'.context.locals = ⟨"super", b.context.depth + 1, true, false⟩ :: b.context.locals := by
  obtain rfl := hbegin.of_beginScope
  have hmark : { b.withDepth (b.context.depth + 1) with classes := ⟨true⟩ :: classes } = b₂ := by
    have hclasses : (b.withDepth (b.context.depth + 1)).classes = c :: classes := hclasses
    rw [← hmark.of_modify, hclasses]
  obtain ⟨hroom, rfl⟩ := hadd.of_addLocal
  subst hmark
  have hdepth : (b.withDepth (b.context.depth + 1)).context.depth ≠ 0 := Nat.succ_ne_zero _
  have hadded := Grown.addLocal hb.withDepth "super" true hdepth hroom
  have hdefine : Clean markInitialized _ _ b' := hdefine
  obtain rfl := hdefine.of_markInitialized_cons hdepth rfl
  exact ⟨{ Extends.refl hb with sound := { hadded.sound with } }, rfl, rfl, rfl, rfl, rfl⟩

/-- **The superclass is another class.**  It is left where the methods find it. -/
theorem superclass_extends {name : Token} {c : ClassContext} {classes : List ClassContext}
    (hb : Sound bps b) (hname : name.lexeme ≠ "super") (hhome : Houses b name.lexeme home)
    (hclasses : b.classes = c :: classes) (h : Clean (superclass name) b u b') :
    ∃ code, Extends bps b bps b' code ∧ b'.classes = ⟨true⟩ :: classes ∧
      b'.context.depth = b.context.depth + 1 ∧
      b'.context.locals = ⟨"super", b.context.depth + 1, true, false⟩ :: b.context.locals ∧
      Houses b' name.lexeme home ∧
      ∀ S, Covers b.context.locals S →
        Flow (b'.env bps) S ⟨[], .fresh home⟩ code (some ⟨[.temp .parent], .settled home⟩) := by
  unfold superclass at h
  obtain ⟨parent, _, hparent, h⟩ := h.bind
  obtain ⟨hkind, rfl, rfl⟩ := hparent.of_expect
  split at h
  · obtain ⟨_, _, hfail, -⟩ := h.bind
    exact absurd hfail Clean.not_fail
  · next hother =>
    have htaken := Grown.take hb
    have hhome' : Houses b.take name.lexeme home :=
      hhome.append htaken.enclosing (List.nil_append _).symm (by simp)
    obtain ⟨_, b₁, hread, h⟩ := h.bind
    unfold readVariable at hread
    obtain ⟨access, b₂, hresolve, hread⟩ := hread.bind
    obtain ⟨hgrown, hlocals, hreached⟩ := hresolve.reached htaken.sound fun hsuper =>
      absurd hsuper ((Builder.next_plain hb).identifier hkind).2.2
    obtain rfl := hread.of_emitWithAt
    have hchosen := Grown.emitWith hgrown.sound access.getOp access.index b.next.line
    obtain ⟨_, b₃, hbegin, h⟩ := h.bind
    obtain ⟨_, b₄, hmark, h⟩ := h.bind
    obtain ⟨_, b₅, hadd, h⟩ := h.bind
    obtain ⟨_, b₆, hdefine, h⟩ := h.bind
    have hclasses' : (b₂.emitWith access.getOp access.index b.next.line).classes = c :: classes :=
      (htaken.trans (hgrown.trans hchosen)).classes.trans hclasses
    obtain ⟨hopened, hmarked, hdepth, henclosing, henv, hlocals'⟩ :=
      extends_superScope hchosen.sound hclasses' hbegin hmark hadd hdefine
    have hlocals' : b₆.context.locals
        = [⟨"super", b.context.depth + 1, true, false⟩] ++ b.context.locals := by
      rw [hlocals', ← show b₂.context.depth = b.context.depth from hgrown.depth]
      exact congrArg (_ :: ·) hlocals
    -- The class itself is read where it is kept, below the superclass.
    have hread := htaken.toExtends.trans (hgrown.toExtends.trans hchosen.toExtends)
    have hbefore := hread.trans hopened
    have hsuper : ∀ l ∈ [(⟨"super", b.context.depth + 1, true, false⟩ : Local)],
        l.name ≠ name.lexeme := by
      intro l hl
      rw [List.mem_singleton.1 hl]
      exact hname.symm
    have hhome₆ : Houses b₆ name.lexeme home := hhome.append hbefore.enclosing hlocals' hsuper
    obtain ⟨_, b₇, hself, h⟩ := h.bind
    unfold readVariable at hself
    obtain ⟨access', b₈, hresolve', hself⟩ := hself.bind
    obtain ⟨hgrown', hlocals₈, -⟩ := hresolve'.reached hopened.sound fun hsuper =>
      absurd hsuper hname
    have hkept := resolve_readBy hopened.sound hhome₆ hresolve'
    obtain rfl := hself.of_emitWithAt
    have hpaired := Grown.emitWith hgrown'.sound access'.getOp access'.index name.line
    obtain rfl := h.of_emitAt
    have hinherited := Grown.emit hpaired.sound .inherit b.next.line
    have hafter := hgrown'.trans (hpaired.trans hinherited)
    have hwhole := hbefore.trans hafter.toExtends
    have hlocals₉ : ((b₈.emitWith access'.getOp access'.index name.line).emit .inherit
        b.next.line).context.locals = _ := hlocals₈.trans hlocals'
    refine ⟨_, hwhole, hafter.classes.trans hmarked, ?_, ?_, ?_, fun S hS => ?_⟩
    · rw [hafter.depth, hdepth]
      exact congrArg (· + 1) hgrown.depth
    · exact hlocals₉
    · exact hhome.append hwhole.enclosing hlocals₉ hsuper
    · obtain ⟨k, hreads, hk⟩ := hreached.reads hS
      have hchoose := (Flow.of_runs (.choose (X := []) hreads (serves_value k hk)
        (resolve_avoidedBy (b := b.take) hhome' hreached hother)) b.next.line).mono
        ((hchosen.toExtends.trans (hopened.trans hafter.toExtends)).env_le hgrown.sound)
        (Shape.Le.refl S)
      obtain ⟨k', hreads'⟩ := hhome.reads hS hkept
      have hpair := (Flow.of_runs
        (.pair (X := []) (hreads'.append [.operand]) hkept) name.line).mono
        ((hpaired.trans hinherited).env_le hgrown'.sound) (Shape.Le.refl S)
      exact hchoose.append (hpair.append (.of_runs .inherit b.next.line))

/-! ## Class declarations -/

variable {inner : Phrase → Build Unit} [∀ p, Cumulative (inner p)]
  (hdeclaration : EmitsDeclaration (inner .declaration))

include hdeclaration in
/-- The members of a class, which is read where it is kept. -/
theorem classTail_emits {name : Token} {st : Stage} {derived : Bool} (hb : Sound bps b)
    (hst : st = if derived then .settled home else .fresh home) (hname : name.lexeme ≠ "super")
    (hhome : Houses b name.lexeme home)
    (hprepared : Prepared derived b)
    (h : Clean (do
      readVariable name
      let _ ← expect .braceBeforeClass
      repeatWhile (memberRound inner)
      let _ ← expect .braceAfterClass
      emit .pop) b u b') :
    Emits true bps b b' ⟨[], st⟩ (.at []) := by
  obtain ⟨_, _, hread, h⟩ := h.bind
  unfold readVariable at hread
  obtain ⟨access, b₁, hresolve, hread⟩ := hread.bind
  obtain ⟨hgrown, hlocals, -⟩ := hresolve.reached hb fun hsuper => absurd hsuper hname
  have hkept := resolve_readBy hb hhome hresolve
  obtain rfl := hread.of_emitWithAt
  have hheld : Emission true bps b bps _ ⟨[], st⟩ _ ⟨[.temp .parent], .held derived⟩ :=
    (Emission.of_grown hgrown hlocals _).append
      (.emitWith hgrown.sound name.line fun S hS => by
        rw [hlocals] at hS
        obtain ⟨k, hreads⟩ := hhome.reads hS hkept
        exact .hold hreads hkept hst)
  obtain ⟨_, _, hopen, h⟩ := h.bind
  obtain ⟨-, -, rfl⟩ := hopen.of_expect
  obtain ⟨_, b₂, hmembers, h⟩ := h.bind
  obtain ⟨_, _, hclose, h⟩ := h.bind
  obtain ⟨-, -, rfl⟩ := hclose.of_expect
  obtain rfl := h.of_emit
  have hmembers' : Emits true bps _ b₂ ⟨[.temp .parent], .held derived⟩
    ⟨[.temp .parent], .held derived⟩ :=
    members_emit hdeclaration hheld.thenTake.grown.sound
      (hheld.thenTake.prepared hprepared) hmembers
  obtain ⟨bps₂, code, he⟩ := (hheld.thenTake.andThen hmembers').thenTake
  -- The class is declared with its last member, and is a value like any other from then on.
  have hforgotten : Emission true bps b bps₂ b₂.take ⟨[], st⟩ code (.at [.temp .parent]) :=
    ⟨he.grown, he.locals, fun S hS =>
      (he.flow S hS).weaken ⟨Shape.Le.refl _, .inr ⟨rfl, rfl⟩⟩⟩
  exact hforgotten.andThen (.emit he.grown.sound fun _ _ => .pop)

omit [∀ p, Cumulative (inner p)] in
/-- The end of a class ends the scope of its superclass, if there is one. -/
theorem of_endClass {c : ClassContext} {classes : List ClassContext}
    (hclasses : b.classes = c :: classes) (h : Clean endClass b u b') :
    (c.hasSuperclass = true ∧ Clean endScope { b with classes } u b') ∨
      (c.hasSuperclass = false ∧ { b with classes } = b') := by
  unfold endClass at h
  replace h := h.bind_get
  rw [hclasses] at h
  replace h := h.bind_modify
  split at h
  · next hsuper => exact .inl ⟨hsuper, h⟩
  · next hsuper => exact .inr ⟨eq_false_of_ne_true hsuper, h.of_pure.2⟩

/-- Both endings of a class body come to the code of a statement. -/
theorem classRest_emits (hdeclaration : EmitsDeclaration (inner .declaration)) {name : Token}
    (hb : Sound bps b) (hname : name.lexeme ≠ "super") (hhome : Houses b name.lexeme home)
    (htop : ∃ l old, b.context.locals = l :: old ∧ l.name ≠ "super")
    (h : Clean (do
      beginClass
      let outcome ← attempt (classBody inner name)
      endClass
      conclude outcome) b u b') :
    Emits true bps b b' ⟨[], .fresh home⟩ (.at []) := by
  -- The class is entered and left around its body, whether the body is accepted or not; here it is,
  -- since the whole build is `Clean`.
  obtain ⟨_, b₁, hbegin, h⟩ := h.bind
  obtain ⟨outcome, b₂, hattempt, h⟩ := h.bind
  obtain ⟨_, b₃, hend, h⟩ := h.bind
  obtain ⟨rfl, rfl⟩ := h.of_conclude
  have hbody := hattempt.attempt_ok
  clear h hattempt
  obtain rfl : { b with classes := ⟨false⟩ :: b.classes } = b₁ := hbegin.of_modify
  have hb₁ : Sound bps { b with classes := ⟨false⟩ :: b.classes } := { hb with }
  unfold classBody at hbody
  obtain ⟨hasParent, b₄, hcolon, hbody⟩ := hbody.bind
  rcases hcolon.of_accept with ⟨rfl, -, rfl⟩ | ⟨rfl, -, rfl⟩
  · -- With a superclass, `super` is one more local, in a scope of its own around the members.
    have htaken := Grown.take hb₁
    obtain ⟨_, b₅, hsuperclass, hbody⟩ := hbody.bind
    obtain ⟨c₁, hextends, hclasses, hdepth, hlocals, hhome₅, hflow⟩ :=
      superclass_extends htaken.sound hname
        (hhome.append htaken.enclosing (List.nil_append _).symm (by simp)) rfl hsuperclass
    have hprepared : Prepared true b₅ :=
      ⟨fun _ => rfl, _, _, hlocals, fun _ => rfl, fun _ => ⟨rfl, rfl⟩⟩
    obtain ⟨bps', c₂, he⟩ :=
      classTail_emits hdeclaration hextends.sound rfl hname hhome₅ hprepared hbody
    have hmembers := he.locals
    rw [hlocals] at hmembers
    obtain ⟨parent, old, hraise, hold, hlocals₂⟩ := List.forall₂_cons_left_iff.1 hmembers
    rcases of_endClass (he.grown.classes.trans hclasses) hend with ⟨-, hdrops⟩ | ⟨hsuper, -⟩
    · -- The superclass is dropped at the end of its scope.
      have hwhole : Extends bps b bps' { b₂ with classes := b.classes } (c₁ ++ c₂) :=
        { htaken.toExtends.trans (hextends.trans he.grown.toExtends) with
          sound := { he.grown.sound with } }
      have hlocals₂ : { b₂ with classes := b.classes }.context.locals = [parent] ++ old := hlocals₂
      have hscope := Grown.endScope hb hwhole rfl hlocals₂ hold
      have hparents : ∀ l ∈ [parent], l.depth = b.context.depth + 1 := by
        intro l hl
        rw [List.mem_singleton.1 hl]
        exact hraise.depth
      have hdrops' := hdrops.of_endScope hlocals₂ (he.grown.depth.trans hdepth) hparents
        hscope.sound.contexts.1.depths
      obtain ⟨hdropped, hlocals'⟩ := drops_emit true hscope.sound hdrops'
      refine ⟨bps', _, hscope.trans hdropped.grown, ?_, fun S hS => ?_⟩
      · rw [hlocals']
        exact hold
      · rw [hlocals'] at hS
        have hslot : Slot.Le (.temp .parent) parent.slot :=
          ⟨(congrArg SlotKind.ofName hraise.name).symm, by simp⟩
        have hfirst := ((hflow S (hS.covers.of_raised hold)).mono
          (he.grown.env_le hextends.sound) (Shape.Le.refl S)).weaken
          (r := ⟨[parent.slot], .settled home⟩) ⟨.cons hslot .nil, .inl rfl⟩
        have hsecond := (he.flow (parent.slot :: S) (hlocals₂ ▸ hS.append [parent])).rebase
          (Y := [parent.slot])
        have hbody := (hfirst.append hsecond).mono (hdropped.grown.env_le hscope.sound)
          (Shape.Le.refl S)
        exact hbody.append (hdropped.flow S (hlocals' ▸ hS))
    · simp at hsuper
  · -- Without one, the members are built in the scope the class stands in, and `endClass` drops
    -- nothing.
    obtain ⟨l, old, hlocals, htop⟩ := htop
    have hprepared : Prepared false { b with classes := ⟨false⟩ :: b.classes } :=
      ⟨by simp, l, old, hlocals, fun hl => absurd hl htop, by simp⟩
    obtain ⟨bps', code, he⟩ := classTail_emits hdeclaration hb₁ rfl hname
      (hhome.append (ContextsRaised.refl _) (List.nil_append _).symm (by simp)) hprepared hbody
    rcases of_endClass he.grown.classes hend with ⟨hsuper, -⟩ | ⟨-, rfl⟩
    · simp at hsuper
    · exact ⟨bps', code, { he.grown with
        sound := { he.grown.sound with }
        classes := rfl }, he.locals, he.flow⟩

/-- **A class declaration is the code of a declaration.** -/
theorem classDeclaration_declares (hdeclaration : EmitsDeclaration (inner .declaration)) :
    EmitsDeclaration (classDeclaration inner) := by
  intro bps b b' u hb hscoped h
  unfold classDeclaration at h
  obtain ⟨name, _, hexpect, h⟩ := h.bind
  obtain ⟨hkind, rfl, rfl⟩ := hexpect.of_expect
  obtain ⟨hempty, hself, hsuper⟩ := (Builder.next_plain hb).identifier hkind
  have htaken := Grown.take hb
  obtain ⟨index, _, hconstant, h⟩ := h.bind
  obtain ⟨chunk, hadd, rfl⟩ := hconstant.of_nameConstant
  obtain ⟨hnamed, hnames⟩ := Grown.addName htaken.sound hadd
  have hstart := htaken.trans hnamed
  obtain ⟨_, b₁, hdeclare, h⟩ := h.bind
  obtain ⟨_, b₂, hmake, h⟩ := h.bind
  obtain rfl := hmake.of_emitWithAt
  replace h := h.bind_get
  obtain ⟨_, b₃, hdefine, hrest⟩ := h.bind
  clear h
  rcases hdeclare.of_declareVariable with ⟨hdepth, rfl⟩ | ⟨hdepth, -, hroom, rfl⟩
  · -- At depth zero the class is made and stored in a global variable at once.
    split at hdefine
    · unfold defineVariable at hdefine
      obtain ⟨_, _, hline, hdefine⟩ := hdefine.bind
      obtain ⟨rfl, rfl⟩ := hline.of_previousLine
      obtain rfl := hdefine.of_emitWithAt
      have hmade := Grown.emitWith hstart.sound .newClass index b.next.line
      have hdefined := Grown.emitWith hmade.sound .defineGlobal index b.next.line
      have hkept : Emission true bps b bps _ (.at []) _ ⟨[], .fresh (.global b.next.lexeme)⟩ :=
        ⟨hstart.trans (hmade.trans hdefined), LocalsRaised.refl _, fun S _ =>
          (Flow.of_runs (.newClass (X := []) hnames) _).append
            (.of_runs (.defineClass (X := []) hnames) _)⟩
      obtain ⟨hnone, callee, hcallee, hcalled⟩ := hb.contexts.1.top hdepth
      have hothers : ∀ l ∈ b.context.locals, l.name ≠ b.next.lexeme := by
        rw [hcallee]
        intro l hl
        rw [List.mem_singleton.1 hl, hcalled]
        exact hempty.symm
      -- The rest of the declaration sees the class under its global name.
      obtain ⟨bps', code, he⟩ := hkept.andThen
        (classRest_emits hdeclaration hdefined.sound hsuper (.global hnone hothers)
          ⟨callee, [], hcallee, by simp [hcalled]⟩ hrest)
      exact ⟨bps', [], _, _, .of_emission he⟩
    · next hnonzero => exact absurd hdepth hnonzero
  · split at hdefine
    · next hzero => exact absurd hzero hdepth
    · -- The class lives in the slot of the new local.
      have hadd := Grown.addLocal hstart.sound b.next.lexeme true hdepth hroom
      have hdefine : Clean markInitialized _ _ b₃ := hdefine
      obtain rfl := hdefine.of_markInitialized_cons hdepth rfl
      have hmade := Grown.emitWith hadd.sound .newClass index b.next.line
      have hfind : FunctionContext.findLocal? b.next.lexeme
          (⟨b.next.lexeme, b.context.depth, true, false⟩ :: b.context.locals)
          = some (b.context.locals.length, ⟨b.next.lexeme, b.context.depth, true, false⟩) := by
        rw [FunctionContext.findLocal?, if_pos rfl]
      obtain ⟨bps', code, he⟩ :=
        classRest_emits hdeclaration hmade.sound hsuper (.slot hfind rfl) ⟨_, _, rfl, hsuper⟩ hrest
      obtain ⟨l, old, hl, hold, hlocals⟩ := List.forall₂_cons_left_iff.1 he.locals
      refine ⟨bps', [l], old, _, hstart.trans (hadd.trans (hmade.trans he.grown)), hlocals, hold,
        ?_, ?_, fun hzero => absurd hzero hdepth, fun S hS => ?_⟩
      · intro l' hl'
        rw [List.mem_singleton.1 hl']
        exact hl.depth
      · intro l' hl'
        rw [List.mem_singleton.1 hl', hl.name]
        exact hsuper
      · have hlength : S.length = b.context.locals.length :=
          (hS.length rfl).trans hold.length_eq.symm
        have hslot : Slot.operand.Le l.slot :=
          operand_le_slot ((congrArg SlotKind.ofName hl.name).trans
            (SlotKind.ofName_of_plain ⟨hempty, hself, hsuper⟩))
        have hclass := (Flow.of_runs (p := .at []) (.newClass (S := S)
          ((he.grown.env_le hmade.sound).constants hnames)) b.next.line).weaken
          (r := ⟨[l.slot], .fresh (.slot S.length)⟩) ⟨.cons hslot .nil, .inl rfl⟩
        have hrest := (he.flow (l.slot :: S) (hlocals ▸ hS.append [l])).rebase (Y := [l.slot])
        rw [← hlength] at hrest
        exact hclass.append hrest

-- What follows is typed above the slot of the class, which `rebase` puts under its shape.
end

end Build

end ScriptVM
