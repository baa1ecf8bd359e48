/-
# The code of a tree behind other code

The code of a syntax tree is the same wherever in a script it is appended, up to the indices of
constants: each part of it is a twin of itself (`Derives.twin`).  Jumps count from their own place,
and a function is built apart from the script.

Main statement: `Decl.twin_buildAll`.
-/
import ScriptVM.Proofs.Imperative.Meaning
import ScriptVM.Proofs.Syntax.RelocatedSteps

namespace ScriptVM

namespace Build

open Builder (Alongside Passing)

namespace Twin

variable {S : Fact}

/-! ## Returning -/

/-- Returning is a twin of itself. -/
theorem emitReturn : Twin Inside Same Build.emitReturn Build.emitReturn := by
  refine previousLine.bind fun line => get fun b b' hlevel => ?_
  rw [hlevel.kind]
  dsimp only
  split
  · refine Twin.bind (emitWith fun c c' hne =>
      ⟨fun hnil => absurd hnil hne, fun _ => rfl⟩) fun _ => ?_
    exact emitInside .ret line
  · exact (emitInside .pushNil line).bind fun _ => emitInside .ret line

/-- Only functions return. -/
theorem leave {value value' : Build Unit} (keyword : Token)
    (hvalue : Twin Inside Same value value') :
    Twin Any Same (Build.leave keyword value) (Build.leave keyword value') := by
  refine pass.bind fun _ => getAlongside fun b b' hlevel => ?_
  rw [hlevel.kind]
  have hinside : b.context.function.kind ≠ .script → Twin (fun c c' => Any c c' ∧ c = b ∧
      c' = b' ∧ ∃ rest rest', c.Alongside rest rest' c') Same value value' := fun hne =>
    hvalue.strengthen fun c c' ⟨_, hc, _, rest, rest', halong⟩ hnil => by
      subst hc
      exact hne (halong.script hnil).kind
  split
  · exact fail _ _ _ _
  · exact fail _ _ _ _
  · next hfunction => exact hinside (by rw [hfunction]; decide)
  · next hmethod => exact hinside (by rw [hmethod]; decide)

/-! ## Parameters -/

/-- Counting a parameter is a twin of itself. -/
theorem countParameter : Twin S Same Build.countParameter Build.countParameter := by
  refine get fun b b' _ => ?_
  refine (refuse (S := Any) _ _ _ _ _).weaken.bindFact fun _ _ =>
    of_silent_unit fun hb _ hrun hrun' => ?_
  obtain rfl := hrun.of_modifyContext
  obtain rfl := hrun'.of_modifyContext
  refine ⟨[], [], .withContext hb (fun _ h => ?_) (fun h _ => ?_) rfl (.refl _ _ _ _)⟩
  · refine ⟨?_, h.kind, h.kind', h.captures, h.stocked, h.stocked', h.limit, h.callee⟩
    rw [h.same]
  · rw [h]

/-- Naming parameters is a twin of itself. -/
theorem parameterNames (names : List Token) :
    Twin Any Same (Build.parameterNames names) (Build.parameterNames names) := by
  induction names with
  | nil => exact pure ()
  | cons name names ih =>
    refine countParameter.bind fun _ => (newName name).bindFact fun i? i?' => ?_
    exact (defineVariable i? i?').bind fun _ => (divide names).bind fun _ => ih.weaken

theorem parameterList (names : List Token) :
    Twin Any Same (Build.parameterList names) (Build.parameterList names) :=
  pass.bind fun _ => (parameterNames names).bind fun _ => pass

/-! ## Functions -/

/-- The bytes behind the making of a closure depend on the code before them only. -/
theorem eq_of_captures {captures : List Capture} {line : Nat} {b b₁ b' b₁' : Builder} {u u' : Unit}
    (h : Clean (captures.forM fun capture => do
      emitByteAt (if capture.isLocal then 1 else 0) line
      emitByteAt capture.index line) b u b₁)
    (h' : Clean (captures.forM fun capture => do
      emitByteAt (if capture.isLocal then 1 else 0) line
      emitByteAt capture.index line) b' u' b₁') (hchunk : b'.chunk = b.chunk) :
    b₁'.chunk = b₁.chunk := by
  induction captures generalizing b b' u u' with
  | nil =>
    obtain ⟨-, rfl⟩ := Clean.of_pure h
    obtain ⟨-, rfl⟩ := Clean.of_pure h'
    exact hchunk
  | cons c captures ih =>
    obtain ⟨_, _, hc, h⟩ := Clean.bind h
    obtain ⟨_, _, hflag, hindex⟩ := hc.bind
    obtain rfl := hflag.of_emitByteAt
    obtain rfl := hindex.of_emitByteAt
    obtain ⟨_, _, hc', h'⟩ := Clean.bind h'
    obtain ⟨_, _, hflag', hindex'⟩ := hc'.bind
    obtain rfl := hflag'.of_emitByteAt
    obtain rfl := hindex'.of_emitByteAt
    refine ih h h' ?_
    show (b'.chunk.addByte _ line).addByte _ line = (b.chunk.addByte _ line).addByte _ line
    rw [hchunk]

/-- Closures of the same function are made alike. -/
theorem passing_emitClosure {rest rest' : List ScanItem} {b b' b₁ b₁' : Builder}
    {finished : FunctionContext} {line : Nat} (hb : b.Alongside rest rest' b')
    (hcaptures : b.enclosing = [] → takesSlot finished.captures 0 = false)
    (h : Clean (emitClosure finished line) b () b₁)
    (h' : Clean (emitClosure finished line) b' () b₁') :
    ∃ a a', Passing rest rest' b b' b₁ b₁' a a' := by
  unfold emitClosure at h h'
  obtain ⟨_, _, hkeep, h⟩ := h.bind
  obtain ⟨rfl, rfl⟩ := hkeep.of_keepFunction
  obtain ⟨i, _, hconstant, h⟩ := h.bind
  obtain ⟨k, hadd, rfl⟩ := hconstant.of_constant
  obtain ⟨_, _, hemit, h⟩ := h.bind
  obtain rfl := hemit.of_emitWithAt
  rw [forM_array_toList] at h
  obtain ⟨l, hl, hconstants, hcode⟩ := captures_append h
    (Chunk.Appends.addInstruction k .closure i line)
  obtain ⟨_, _, hkeep', h'⟩ := h'.bind
  obtain ⟨rfl, rfl⟩ := hkeep'.of_keepFunction
  obtain ⟨i', _, hconstant', h'⟩ := h'.bind
  obtain ⟨k', hadd', rfl⟩ := hconstant'.of_constant
  obtain ⟨_, _, hemit', h'⟩ := h'.bind
  obtain rfl := hemit'.of_emitWithAt
  rw [forM_array_toList] at h'
  obtain ⟨l', hl', hconstants', hcode'⟩ := captures_append h'
    (Chunk.Appends.addInstruction k' .closure i' line)
  rw [hb.functions] at hadd'
  have hkept : Passing rest rest' b b' { b with functions := b.functions.push finished.complete }
      { b' with functions := b'.functions.push finished.complete } [] [] :=
    ⟨{ hb with functions := by rw [hb.functions] }, rfl, rfl, id, by simp, .refl _ _ _ _⟩
  obtain ⟨hpool, hnamed⟩ :=
    passing_addConstant hkept.alongside (.inr ⟨⟨b.functions.size⟩, rfl⟩) hadd
    hadd'
  -- Inside of a function the pools are the same, and so is the number of the constant.
  have hinside : k' = k → b.enclosing ≠ [] → l' = l := by
    intro hk hne
    have hchunk := eq_of_captures h h' (by
      show k'.addInstruction .closure i' line = k.addInstruction .closure i line
      rw [hk, hnamed.2 hne])
    rw [← hl, ← hl'] at hchunk
    exact hchunk
  have hclosed := Passing.single hpool.alongside hcode hcode' hconstants hconstants' hinside
    ⟨fun hnil => ?_, fun hne => by rw [hnamed.2 hne]⟩
  · rw [← hl, ← hl']
    exact ⟨_, _, hkept.append (hpool.append hclosed)⟩
  · have hscript := hb.script hnil
    have hv := (hscript.stocked.addConstant (.inr ⟨_, rfl⟩) hadd).2
    have hv' := (hscript.stocked'.addConstant (.inr ⟨_, rfl⟩) hadd').2
    refine ⟨rfl, .constant rfl hv hv' rfl, ?_, nofun, nofun, ?_⟩
    · rw [Instruction.Formed, if_pos rfl]
      refine ⟨i, _, ⟨b.functions.size⟩, finished.complete, rfl, hv, ?_, length_captureBytes _⟩
      show (b.functions.push finished.complete)[b.functions.size]? = _
      simp
    · have htakes := takesSlot_closure i finished.captures line 0
      rw [hcaptures hnil] at htakes
      simpa [Code.takesSlot] using htakes

/-- A function may begin alike. -/
theorem alongside_inside {rest rest' : List ScanItem} {b b' : Builder}
    (hb : b.Alongside rest rest' b') (name : String) (kind : FunctionKind) :
    (b.inside name kind).Alongside rest rest' (b'.inside name kind) :=
  { hb with contexts := .inside hb.contexts fun _ => rfl }

/-- A function ends alike, and what is around it goes on. -/
theorem passing_endFunction {rest rest' : List ScanItem} {b b' b₁ b₁' b₂ b₂' : Builder}
    {name : String} {kind : FunctionKind} {a a' : Code} {finished finished' : FunctionContext}
    (hpass : Passing rest rest' (b.inside name kind) (b'.inside name kind) b₁ b₁' a a')
    (h : Clean endFunction b₁ finished b₂) (h' : Clean endFunction b₁' finished' b₂') :
    b₂'.pending.length < rest'.length ∨ finished' = finished ∧
      (b₂.enclosing = [] → takesSlot finished.captures 0 = false) ∧
      Passing rest rest' b b' b₂ b₂' [] [] := by
  obtain ⟨b₃, hreturn, rfl, hback⟩ := h.of_endFunction
  obtain ⟨b₃', hreturn', rfl, hback'⟩ := h'.of_endFunction
  have hinside : Inside b₁ b₁' := fun hnil => by
    have haround := hpass.around
    rw [hnil] at haround
    cases haround
  rcases emitReturn.runs hpass.alongside hinside hreturn hreturn' with hpast | ⟨⟨d, d', hends⟩, -⟩
  · exact .inl (Nat.lt_of_le_of_lt (Nat.le_of_eq
      (congrArg List.length (h'.pending_eq.trans hreturn'.pending_eq.symm))) hpast)
  have hall := hpass.append hends
  have haround : b₃.enclosing.map (·.function) =
    b.context.function :: b.enclosing.map (·.function) :=
    hall.around
  have haround' : b₃'.enclosing.map (·.function)
      = b'.context.function :: b'.enclosing.map (·.function) := hall.around'
  -- The innermost function around is the one that the function was begun in, in both builds.
  obtain ⟨outer, more, henclosing, hfunction, hmore⟩ := List.map_eq_cons_iff.1 haround
  obtain ⟨outer', more', henclosing', hfunction', hmore'⟩ := List.map_eq_cons_iff.1 haround'
  obtain rfl := hback outer more henclosing
  obtain rfl := hback' outer' more' henclosing'
  rcases hall.alongside.cases_context with ⟨hnil, -⟩ | ⟨hsame, -, -, hcontexts, htakes⟩
  · rw [henclosing] at hnil
    cases hnil
  rw [henclosing, henclosing'] at hcontexts
  rw [henclosing] at htakes
  refine .inr ⟨hsame, fun hnil => htakes ?_, { hall.alongside with contexts := hcontexts }, hmore,
    hmore', hall.spoken, hall.functions, ?_⟩
  · have hmoreNil : more = [] := hnil
    rw [hmoreNil]
    rfl
  · show Chunk.Twins _ _ b.chunk b'.chunk outer.function.chunk outer'.function.chunk [] []
    rw [hfunction, hfunction']
    exact .refl _ _ _ _

section

-- A function is a sequence of nine steps.
set_option synthInstance.maxSize 512

/-- **A function is built alike**, and so is the closure of it. -/
theorem routine {parameters parameters' body body' : Build Unit} (name : String)
    (kind : FunctionKind) (hparameters : Twin Any Same parameters parameters')
    (hbody : Twin Any Same body body') :
    Twin S Same (Build.routine name kind parameters body)
      (Build.routine name kind parameters' body') := by
  have hmiddle := hparameters.bind fun _ => (pass (S := Any)).bind fun _ => hbody.bind fun _ =>
    pass (S := Any)
  have hroutine : ∀ parameters body : Build Unit, Build.routine name kind parameters body = (do
      let line ← Build.previousLine
      beginFunction name kind
      Build.beginScope
      parameters >>= fun _ => Build.pass >>= fun _ => body >>= fun _ => Build.pass
      emitClosure (← endFunction) line) := fun parameters body => by
    simp only [Build.routine, bind_assoc]
  rw [hroutine, hroutine]
  have := hmiddle.cumulative
  have := hmiddle.cumulative'
  have := hmiddle.shrinking
  refine of_runs fun hb _ h h' => ?_
  obtain ⟨line, _, hline, h⟩ := h.bind
  obtain ⟨rfl, rfl⟩ := hline.of_previousLine
  obtain ⟨_, _, hbegin, h⟩ := h.bind
  obtain rfl := hbegin.of_beginFunction
  obtain ⟨_, _, hscope, h⟩ := h.bind
  obtain rfl := hscope.of_beginScope
  obtain ⟨_, _, hrun, h⟩ := h.bind
  obtain ⟨finished, _, hend, hclosure⟩ := h.bind
  obtain ⟨line', _, hline', h'⟩ := h'.bind
  obtain ⟨rfl, rfl⟩ := hline'.of_previousLine
  obtain ⟨_, _, hbegin', h'⟩ := h'.bind
  obtain rfl := hbegin'.of_beginFunction
  obtain ⟨_, _, hscope', h'⟩ := h'.bind
  obtain rfl := hscope'.of_beginScope
  obtain ⟨_, _, hrun', h'⟩ := h'.bind
  obtain ⟨finished', _, hend', hclosure'⟩ := h'.bind
  have hpending := congrArg List.length (hclosure'.pending_eq.trans hend'.pending_eq)
  -- What is inside the function reads only common tokens, or else the second build is past them for
  -- good.
  rcases hmiddle.runs (alongside_inside hb name kind) trivial hrun hrun' with
    hpast | ⟨⟨a, a', hpass⟩, -⟩
  · exact .inl (hpending ▸ hpast)
  rcases passing_endFunction hpass hend hend' with hpast | ⟨rfl, htakes, hback⟩
  · exact .inl (hclosure'.pending_eq ▸ hpast)
  rw [hb.line] at hclosure'
  obtain ⟨d, d', hclosed⟩ := passing_emitClosure hback.alongside htakes hclosure hclosure'
  exact .inr ⟨_, _, hback.append hclosed⟩

end

/-! ## Classes -/

/-- Entering or leaving classes is a twin of itself. -/
theorem setClasses (classes : List ClassContext) :
    Twin S Same (modify fun b => { b with classes } : Build Unit)
      (modify fun b => { b with classes }) := by
  have : Silent (modify fun b => { b with classes } : Build Unit) := silent_modify fun _ => rfl
  have : Cumulative (modify fun b => { b with classes } : Build Unit) :=
    cumulative_modify fun _ => rfl
  refine of_silent_unit fun hb _ h h' => ?_
  obtain rfl := h.of_modify
  obtain rfl := h'.of_modify
  exact ⟨_, _, { hb with classes := rfl }, rfl, rfl, id, List.prefix_refl _, .refl _ _ _ _⟩

/-- Entering a class is a twin of itself. -/
theorem beginClass : Twin S Same Build.beginClass Build.beginClass :=
  of_silent_unit fun hb _ h h' => by
    obtain rfl := Clean.of_modify h
    obtain rfl := Clean.of_modify h'
    exact ⟨_, _, { hb with classes := by rw [hb.classes] }, rfl, rfl, id, List.prefix_refl _,
      .refl _ _ _ _⟩

/-- Noting a superclass is a twin of itself. -/
theorem markSuperclass : Twin S Same Build.markSuperclass Build.markSuperclass :=
  of_silent_unit fun {_ _ b b' _ _} hb _ h h' => by
    have hmark : ∀ {b b₁ : Builder}, Clean Build.markSuperclass b () b₁ →
        { b with classes := b.classes.modifyHead fun _ => ⟨true⟩ } = b₁ := by
      intro b b₁ h
      obtain rfl := Clean.of_modify h
      obtain ⟨_, _, _, _, _, classes, _, _⟩ := b
      cases classes <;> rfl
    obtain rfl := hmark h
    obtain rfl := hmark h'
    exact ⟨_, _, { hb with classes := by rw [hb.classes] }, rfl, rfl, id, List.prefix_refl _,
      .refl _ _ _ _⟩

theorem endClass [Lasting S] : Twin S Same Build.endClass Build.endClass := by
  refine get fun b b' hlevel => ?_
  rw [hlevel.classes]
  exact (setClasses _).bind fun _ => ite endScope (pure ())

/-- The superclass of a class. -/
theorem parentClass {name parent : Token} (hname : name.lexeme ≠ "")
    (hparent : parent.lexeme ≠ "") :
    Twin Any Same (Build.parentClass name parent) (Build.parentClass name parent) := by
  refine pass.bind fun _ => pass.bind fun _ => (refuse _ _ _ _ _).bind fun _ => ?_
  refine (readVariable hparent).bind fun _ => beginScope.bind fun _ =>
    markSuperclass.bind fun _ => ?_
  refine (addLocal _ _).bind fun _ => markInitialized.bind fun _ =>
    (readVariable hname).bind fun _ => ?_
  exact emitPlain rfl (by decide) _

/-- The name of a class. -/
theorem newClass (name : Token) : Twin Any Same (Build.newClass name) (Build.newClass name) := by
  refine pass.bind fun _ => (nameConstant name).bindFact fun i i' => ?_
  refine (declareVariable name).bind fun _ => (emitNamed rfl i i' _).bind fun _ => ?_
  refine get fun b b' hlevel => ?_
  have hdepth : b'.context.depth = b.context.depth := by rw [hlevel.context]
  rw [hdepth]
  split
  · exact defineVariable (some i) (some i')
  · exact (defineVariable none none).weaken

/-- A class. -/
theorem classOf {parent parent' members members' : Build Unit} {name : Token}
    (hname : name.lexeme ≠ "") (hparent : Twin Any Same parent parent')
    (hmembers : Twin Any Same members members') :
    Twin Any Same (Build.classOf name parent members) (Build.classOf name parent' members') := by
  refine (newClass name).bind fun _ => beginClass.bind fun _ => hparent.bind fun _ => ?_
  refine (readVariable hname).bind fun _ => pass.bind fun _ => hmembers.bind fun _ => ?_
  exact pass.bind fun _ => (emit rfl (by decide)).bind fun _ => endClass

end Twin

end Build

open Build

/-! ## Trees -/

/-- A token as a source can have it: what names something is not empty, and a number is written in
digits. -/
structure Token.Clear (token : Token) : Prop where
  /-- A name is not empty. -/
  name : token.kind = .identifier ∨ token.kind = .selfKw → token.lexeme ≠ ""
  /-- A number is a numeral. -/
  number : token.kind = .number → Numeral token.lexeme.toList

/-- The tokens of a source are as a source can have them. -/
theorem Token.clear_of_mem_scan {source : String} {token : Token} (h : .ok token ∈ scan source) :
    token.Clear := by
  refine ⟨fun hkind => ?_, numeral_of_mem_scan h⟩
  rcases mem_scan h with ⟨here, c, tail, hitem⟩ | ⟨here, hitem⟩
  · rw [Cursor.item] at hitem
    split at hitem
    · next kind hmunch =>
      obtain rfl := Except.ok.inj hitem
      exact (munch_named hkind hmunch).1
    · cases hitem
  · obtain rfl := Except.ok.inj hitem
    rcases hkind with hkind | hkind <;> cases hkind

theorem signOps_plain (kind : TokenKind) : ∀ op ∈ signOps kind, op.operands = .none ∧
    op ≠ .ret := by
  cases kind <;> decide

/-- The code of what a list of tokens is builds the same everywhere. -/
def Nonterminal.Twin : Nonterminal → Prop
  | .expression _ e => Build.Twin Any Same e.build e.build
  | .list es | .optionalList es => ∀ excess count,
    Build.Twin Any Same (Expr.buildList excess count es) (Expr.buildList excess count es)
  | .declaration d | .conditional d | .alternative d => Build.Twin Any Same d.build d.build
  | .declarations ds | .block ds => Build.Twin Any Same (Decl.buildAll ds) (Decl.buildAll ds)
  | .names _ | .parameters _ => True
  | .member m => Build.Twin Any Same m.build m.build
  | .members ms => Build.Twin Any Same (Member.buildAll ms) (Member.buildAll ms)

/-- **What tokens of a source spell builds the same everywhere.** -/
theorem Derives.twin {n : Nonterminal} {ts : List Token} (h : Derives n ts)
    (hts : ∀ t ∈ ts, t.Clear) : n.Twin := by
  -- The induction is over the grammar; a case goes through the parts of the code of its rule.
  induction h with
  | tighter _ ih | someList _ ih => exact ih hts
  | blockStatement _ ih | elseBlock _ ih =>
    unfold Nonterminal.Twin Decl.build
    exact Twin.pass.bind fun _ => (ih hts).enclosed
  | assign hname _ _ ih =>
    simp only [List.forall_mem_cons] at hts
    unfold Nonterminal.Twin Expr.build
    refine Twin.pass.bind fun _ => (Twin.resolve (hts.1.name (.inl hname))).bindFact fun r r' => ?_
    refine Twin.pass.bind fun _ => (ih hts.2.2).weaken.bind fun _ => ?_
    exact Twin.emitWith fun _ _ h => (h _).2
  | setProperty _ _ _ _ _ ihr ihv =>
    simp only [List.forall_mem_append, List.forall_mem_cons] at hts
    unfold Nonterminal.Twin Expr.build
    refine (ihr hts.1).bind fun _ => (Twin.propertyName _).bindFact fun i i' => ?_
    refine Twin.pass.bind fun _ => (ihv hts.2.2.2.2).weaken.bind fun _ => ?_
    exact Twin.emitNamed rfl i i' _
  | disjunction _ _ _ ihl ihr =>
    simp only [List.forall_mem_append, List.forall_mem_cons] at hts
    unfold Nonterminal.Twin Expr.build
    exact (ihl hts.1).bind fun _ => Twin.pass.bind fun _ => (ihr hts.2.2).avoiding _
  | conjunction _ _ _ ihl ihr =>
    simp only [List.forall_mem_append, List.forall_mem_cons] at hts
    unfold Nonterminal.Twin Expr.build
    exact (ihl hts.1).bind fun _ => Twin.pass.bind fun _ => (ihr hts.2.2).skipping _
  | @binary _ _ sign _ _ _ _ _ _ ihl ihr =>
    simp only [List.forall_mem_append, List.forall_mem_cons] at hts
    unfold Nonterminal.Twin Expr.build
    refine (ihl hts.1).bind fun _ => Twin.pass.bind fun _ => (ihr hts.2.2).bind fun _ => ?_
    refine Twin.forM fun op hop => ?_
    obtain ⟨hoperands, hret⟩ := signOps_plain sign.kind op hop
    exact Twin.emitPlain hoperands hret _
  | @unary sign _ _ _ _ ih =>
    simp only [List.forall_mem_cons] at hts
    unfold Nonterminal.Twin Expr.build
    refine Twin.pass.bind fun _ => (ih hts.2).bind fun _ => ?_
    rw [signOp]
    split
    · exact Twin.emitPlain rfl (by decide) _
    · exact Twin.emitPlain rfl (by decide) _
  | call _ _ _ _ _ ihe ihes =>
    simp only [List.forall_mem_append, List.forall_mem_cons] at hts
    unfold Nonterminal.Twin Expr.build
    refine (ihe hts.1.1).bind fun _ => Twin.pass.bind fun _ => ?_
    refine (ihes hts.1.2.2 _ _).bind fun _ => Twin.pass.bind fun _ => ?_
    exact Twin.emitCount (.inl rfl) _ _
  | subscript _ _ _ _ ihe ihi =>
    simp only [List.forall_mem_append, List.forall_mem_cons] at hts
    unfold Nonterminal.Twin Expr.build
    refine (ihe hts.1.1).bind fun _ => Twin.pass.bind fun _ => (ihi hts.1.2.2).bind fun _ => ?_
    exact Twin.pass.bind fun _ => Twin.emitCount (.inl rfl) _ _
  | property _ _ _ ih =>
    simp only [List.forall_mem_append, List.forall_mem_cons] at hts
    unfold Nonterminal.Twin Expr.build
    refine (ih hts.1).bind fun _ => (Twin.propertyName _).bindFact fun i i' => ?_
    exact Twin.emitNamed rfl i i' _
  | methodCall _ _ _ _ _ _ ihe ihes =>
    simp only [List.forall_mem_append, List.forall_mem_cons] at hts
    unfold Nonterminal.Twin Expr.build
    refine (ihe hts.1.1).bind fun _ => (Twin.propertyName _).bindFact fun i i' => ?_
    refine Twin.pass.bind fun _ => (ihes hts.1.2.2.2.2 _ _).weaken.bind fun _ => ?_
    exact Twin.pass.bind fun _ => Twin.emitInvocation rfl i i' _ _
  | literal _ =>
    simp only [List.forall_mem_singleton] at hts
    unfold Nonterminal.Twin Expr.build
    exact Twin.pass.bind fun _ => Twin.literal hts.number
  | ident hkind =>
    simp only [List.forall_mem_singleton] at hts
    unfold Nonterminal.Twin Expr.build
    exact Twin.pass.bind fun _ => Twin.readVariable (hts.name (.inl hkind))
  | this hkind =>
    simp only [List.forall_mem_singleton] at hts
    unfold Nonterminal.Twin Expr.build
    exact Twin.pass.bind fun _ => Twin.selfAccess (hts.name (.inr hkind))
  | inherited _ _ _ =>
    unfold Nonterminal.Twin Expr.build
    refine (Twin.inheritedName _ _).bindFact fun i i' => (Twin.readSuperclass _).bind fun _ => ?_
    exact Twin.emitNamed rfl i i' _
  | inheritedCall _ _ _ _ _ _ ih =>
    simp only [List.cons_append, List.forall_mem_append, List.forall_mem_cons] at hts
    unfold Nonterminal.Twin Expr.build
    refine (Twin.inheritedName _ _).bindFact fun i i' => Twin.pass.bind fun _ => ?_
    refine (ih hts.2.2.2.2.1 _ _).weaken.bind fun _ => Twin.pass.bind fun _ => ?_
    exact (Twin.readSuperclass _).bind fun _ => Twin.emitInvocation rfl i i' _ _
  | grouping _ _ _ ih =>
    simp only [List.cons_append, List.forall_mem_append, List.forall_mem_cons] at hts
    unfold Nonterminal.Twin Expr.build
    exact Twin.pass.bind fun _ => (ih hts.2.1).bind fun _ => Twin.pass
  | array _ _ _ ih =>
    simp only [List.cons_append, List.forall_mem_append, List.forall_mem_cons] at hts
    unfold Nonterminal.Twin Expr.build
    refine Twin.pass.bind fun _ => (ih hts.2.1 _ _).bind fun _ => Twin.pass.bind fun _ => ?_
    exact Twin.emitCount (.inr rfl) _ _
  | last _ ih =>
    intro excess count
    unfold Expr.buildList
    refine (ih hts).bind fun _ => (Twin.limit _ _).bind fun _ => (Twin.divide _).bind fun _ => ?_
    unfold Expr.buildList
    exact Twin.pure ()
  | more _ _ _ ihe ihes =>
    simp only [List.forall_mem_append, List.forall_mem_cons] at hts
    intro excess count
    unfold Expr.buildList
    refine (ihe hts.1).bind fun _ => (Twin.limit _ _).bind fun _ => (Twin.divide _).bind fun _ => ?_
    exact ihes hts.2.2 _ _
  | noList =>
    intro excess count
    unfold Expr.buildList
    exact Twin.pure ()
  | noDeclarations =>
    unfold Nonterminal.Twin Decl.buildAll
    exact Twin.pure ()
  | declarations _ _ ihd ihds =>
    simp only [List.forall_mem_append] at hts
    unfold Nonterminal.Twin Decl.buildAll
    exact (ihd hts.1).bind fun _ => ihds hts.2
  | block _ _ _ ih =>
    simp only [List.cons_append, List.forall_mem_append, List.forall_mem_cons] at hts
    exact ih hts.2.1
  | print _ _ _ ih =>
    simp only [List.cons_append, List.forall_mem_append, List.forall_mem_cons] at hts
    unfold Nonterminal.Twin Decl.build
    refine Twin.pass.bind fun _ => (ih hts.2.1).bind fun _ => Twin.pass.bind fun _ => ?_
    exact Twin.emitPlain rfl (by decide) _
  | leave _ _ =>
    unfold Nonterminal.Twin Decl.build
    exact Twin.leave _ (Twin.pass.bind fun _ => Twin.emitReturn)
  | leaveWith _ _ _ ih =>
    simp only [List.cons_append, List.forall_mem_append, List.forall_mem_cons] at hts
    unfold Nonterminal.Twin Decl.build
    refine Twin.leave _ ((ih hts.2.1).weaken.bind fun _ => Twin.pass.bind fun _ => ?_)
    exact Twin.emitInside _ _
  | conditional _ _ ih | elseIf _ _ ih =>
    simp only [List.forall_mem_cons] at hts
    exact ih hts.2
  | ifThen _ _ ihe ihds =>
    simp only [List.forall_mem_append] at hts
    unfold Nonterminal.Twin Decl.build
    exact Twin.pass.bind fun _ => (ihe hts.1).branch (ihds hts.2) (Twin.pure ())
  | ifElse _ _ _ _ ihe ihds ihd =>
    simp only [List.forall_mem_append, List.forall_mem_cons] at hts
    unfold Nonterminal.Twin Decl.build
    refine Twin.pass.bind fun _ => (ihe hts.1.1).branch (ihds hts.1.2) ?_
    exact Twin.pass.bind fun _ => ihd hts.2.2
  | loop _ _ _ ihe ihds =>
    simp only [List.cons_append, List.forall_mem_append, List.forall_mem_cons] at hts
    unfold Nonterminal.Twin Decl.build
    exact Twin.pass.bind fun _ => (ihe hts.2.1).cycle (ihds hts.2.2)
  | expression _ _ ih =>
    simp only [List.forall_mem_append] at hts
    unfold Nonterminal.Twin Decl.build
    refine (ih hts.1).bind fun _ => Twin.pass.bind fun _ => ?_
    exact Twin.emit rfl (by decide)
  | var _ _ _ =>
    unfold Nonterminal.Twin Decl.build
    refine Twin.pass.bind fun _ => (Twin.newName _).bindFact fun i? i?' => ?_
    refine (Twin.emit rfl (by decide)).bind fun _ => Twin.pass.bind fun _ => ?_
    exact Twin.defineVariable i? i?'
  | varWith _ _ _ _ _ ih =>
    simp only [List.cons_append, List.forall_mem_append, List.forall_mem_cons] at hts
    unfold Nonterminal.Twin Decl.build
    refine Twin.pass.bind fun _ => (Twin.newName _).bindFact fun i? i?' => ?_
    refine Twin.pass.bind fun _ => (ih hts.2.2.2.1).weaken.bind fun _ => Twin.pass.bind fun _ => ?_
    exact Twin.defineVariable i? i?'
  | lastName _ | moreNames _ _ _ _ | noParameters _ _ | parameters _ _ _ _ => trivial
  | func _ _ _ _ _ ih =>
    simp only [List.cons_append, List.forall_mem_append, List.forall_mem_cons] at hts
    unfold Nonterminal.Twin Decl.build
    refine Twin.pass_spoken.bindFact fun _ _ =>
      (Twin.newName _).weaken.keep.bindFact fun i? i?' => ?_
    refine Twin.getSpoken (fun _ _ => And.left) fun b b' hspoken => ?_
    rw [hspoken]
    refine Twin.markInitialized.bind fun _ => ?_
    refine (Twin.routine _ _ (Twin.parameterList _) (ih hts.2.2.2)).bind fun _ => ?_
    exact (Twin.defineVariable i? i?').strengthen fun _ _ => And.right
  | computed _ _ _ ih =>
    simp only [List.forall_mem_cons] at hts
    unfold Nonterminal.Twin Member.build
    refine Twin.pass.bind fun _ => Twin.pass.bind fun _ =>
      (Twin.nameConstant _).bindFact fun i i' => ?_
    refine (Twin.routine _ _ (Twin.pure ()) (ih hts.2.2)).bind fun _ => ?_
    exact Twin.emitNamed rfl i i' _
  | method _ _ _ _ ih =>
    simp only [List.cons_append, List.forall_mem_append, List.forall_mem_cons] at hts
    unfold Nonterminal.Twin Member.build
    refine Twin.pass.bind fun _ => (Twin.nameConstant _).bindFact fun i i' => ?_
    refine (Twin.routine _ _ (Twin.parameterList _) (ih hts.2.2)).bind fun _ => ?_
    exact Twin.emitNamed rfl i i' _
  | noMembers =>
    unfold Nonterminal.Twin Member.buildAll
    exact Twin.pure ()
  | members _ _ ihm ihms =>
    simp only [List.forall_mem_append] at hts
    unfold Nonterminal.Twin Member.buildAll
    exact (ihm hts.1).bind fun _ => ihms hts.2
  | classDecl _ hname _ _ _ ih =>
    simp only [List.cons_append, List.forall_mem_append, List.forall_mem_cons] at hts
    unfold Nonterminal.Twin Decl.build
    refine Twin.pass.bind fun _ => ?_
    exact Twin.classOf (hts.2.1.name (.inl hname)) (Twin.pure ()) (ih hts.2.2.2.1)
  | derivedClass _ hname _ hparent _ _ _ ih =>
    simp only [List.cons_append, List.forall_mem_append, List.forall_mem_cons] at hts
    unfold Nonterminal.Twin Decl.build
    have hclear := hts.2.1.name (.inl hname)
    refine Twin.pass.bind fun _ => Twin.classOf hclear ?_ (ih hts.2.2.2.2.2.1)
    exact Twin.parentClass hclear (hts.2.2.2.1.name (.inl hparent))

/-- **Declarations of a source build the same everywhere.** -/
theorem Decl.twin_buildAll {ds : List Decl} {ts : List Token} (h : Derives (.declarations ds) ts)
    (hts : ∀ t ∈ ts, t.Clear) : Twin Any Same (Decl.buildAll ds) (Decl.buildAll ds) :=
  h.twin hts

end ScriptVM
