/-
# Building steps that do the same behind other code

A step is a twin of another if clean runs of the two from builders alongside append corresponding
code (`Twin`).  What is known of the builders before is a `Fact`; most facts are about a constant or
a variable that an instruction will refer to, and they last while code is appended.

Sequences of twins are twins (`Twin.bind`, `Twin.bindFact`); the parts from which the code of a
syntax tree is put together are all twins of themselves.
-/
import ScriptVM.Proofs.Program.RelocatedBuilders
import ScriptVM.Proofs.Syntax.Reading
import ScriptVM.Proofs.Syntax.Stretches

namespace ScriptVM

namespace Build

open Builder (Alongside Passing)

/-! ## Facts -/

/-- What may be known of two builders. -/
abbrev Fact := Builder → Builder → Prop

/-- A fact that stays true while corresponding code is appended. -/
class Lasting (S : Fact) : Prop where
  /-- It stays true. -/
  last : ∀ {rest rest' : List ScanItem} {b b' b₁ b₁' : Builder} {a a' : Code},
    Passing rest rest' b b' b₁ b₁' a a' → S b b' → S b₁ b₁'

/-- Nothing is known. -/
def Any : Fact := fun _ _ => True

/-- Two outcomes are the same. -/
def Same {α : Type} (r r' : α) : Fact := fun _ _ => r' = r

/-- The builders are inside of a function. -/
def Inside : Fact := fun b _ => b.enclosing ≠ []

/-- Two indices name the same constant. -/
def Named (i i' : UInt8) : Fact := fun b b' =>
  (b.enclosing = [] → ∃ v, b.chunk.constants[i.toNat]? = some v ∧
    b'.chunk.constants[i'.toNat]? = some v) ∧ (b.enclosing ≠ [] → i' = i)

/-- The last tokens are the same. -/
def Spoken : Fact := fun b b' => b'.previous = b.previous

/-- Two instructions can be appended. -/
def Appendable (i i' : Instruction) : Fact := fun b b' =>
  i.Twins (b.enclosing = []) b.functions b.chunk.constants b'.chunk.constants i'

/-- Two variables are reached alike. -/
def Reached (r r' : Access) : Fact := fun b b' => ∀ line,
  Appendable ⟨r.getOp, [r.index], line⟩ ⟨r'.getOp, [r'.index], line⟩ b b' ∧
    Appendable ⟨r.setOp, [r.index], line⟩ ⟨r'.setOp, [r'.index], line⟩ b b'

/-- Two new variables are locals, or their names are the same constant. -/
def Declared : Option UInt8 → Option UInt8 → Fact
  | some i, some i' => Named i i'
  | none, none => Any
  | _, _ => fun _ _ => False

instance : Lasting Any := ⟨fun _ _ => trivial⟩

instance : Lasting Inside := ⟨fun h hb hnil => hb (h.enclosing_iff.1 hnil)⟩

instance : Lasting Spoken := ⟨Passing.spoken⟩

instance (S S' : Fact) [Lasting S] [Lasting S'] : Lasting fun b b' => S b b' ∧ S' b b' :=
  ⟨fun h hS => ⟨Lasting.last h hS.1, Lasting.last h hS.2⟩⟩

instance (i i' : Instruction) : Lasting (Appendable i i') where
  last h hi := ⟨fun hb => (hi.1 (h.enclosing_iff.1 hb)).mono h.functions h.code.constants
    h.code.constants', fun hb => hi.2 (mt h.enclosing_iff.2 hb)⟩

instance (i i' : UInt8) : Lasting (Named i i') where
  last h hi := by
    refine ⟨fun hb => ?_, fun hb => hi.2 (mt h.enclosing_iff.2 hb)⟩
    obtain ⟨v, hv, hv'⟩ := hi.1 (h.enclosing_iff.1 hb)
    rw [← Array.getElem?_toList] at hv hv'
    refine ⟨v, ?_, ?_⟩ <;> rw [← Array.getElem?_toList]
    · exact getElem?_of_isPrefix h.code.constants hv
    · exact getElem?_of_isPrefix h.code.constants' hv'

instance (r r' : Access) : Lasting (Reached r r') where
  last h hr line := ⟨Lasting.last h (hr line).1, Lasting.last h (hr line).2⟩

instance (i? i?' : Option UInt8) : Lasting (Declared i? i?') := by
  cases i? <;> cases i?' <;> unfold Declared <;> first | infer_instance | exact ⟨fun _ h => h⟩

/-- An instruction with a constant that is named. -/
theorem Named.appendable {i i' : UInt8} {b b' : Builder} (h : Named i i' b b') (op : Opcode)
    (hop : op.refers = true) (hclosure : op ≠ .closure) {operands : List UInt8}
    (hlength : operands.length + 1 = op.operandLength) (line : Nat) :
    Appendable ⟨op, i :: operands, line⟩ ⟨op, i' :: operands, line⟩ b b' := by
  refine ⟨fun hb => ?_, fun hb => ?_⟩
  · obtain ⟨v, hv, hv'⟩ := h.1 hb
    exact .constant hop hclosure hv hv' hlength
  · rw [h.2 hb]

/-- A step that takes tokens at most. -/
class Shrinking {α : Type} (x : Build α) : Prop where
  /-- There are no more tokens than before. -/
  length_le : ∀ {b b' : Builder} {r : α}, Clean x b r b' → b'.pending.length ≤ b.pending.length

instance {α : Type} (x : Build α) [Silent x] : Shrinking x :=
  ⟨fun h => Nat.le_of_eq (congrArg List.length h.pending_eq)⟩

instance {α β : Type} (x : Build α) (f : α → Build β) [Shrinking x] [∀ r, Cumulative (f r)]
    [∀ r, Shrinking (f r)] : Shrinking (x >>= f) where
  length_le h := by
    obtain ⟨r, b₁, h₁, h₂⟩ := h.bind
    exact Nat.le_trans (Shrinking.length_le h₂) (Shrinking.length_le h₁)

instance : Shrinking pass where
  length_le := by
    intro b b' r h
    obtain rfl := h.of_pass
    rw [Builder.take]
    split
    · exact Nat.le_refl _
    · exact b.pending.length_tail ▸ Nat.sub_le _ _

/-! ## Twins -/

/-- **Two steps that build the same**, if a fact holds before: clean runs from builders alongside
append corresponding code, and then another fact holds of the outcomes; or the second one takes a
token behind the common ones. -/
structure Twin {α : Type} (S : Fact) (T : α → α → Fact) (x x' : Build α) : Prop where
  /-- The first one keeps all complaints. -/
  cumulative : Cumulative x
  /-- The second one keeps all complaints. -/
  cumulative' : Cumulative x'
  /-- The second one takes tokens at most. -/
  shrinking : Shrinking x'
  /-- What clean runs do. -/
  runs : ∀ {rest rest' : List ScanItem} {b b' b₁ b₁' : Builder} {r r' : α},
    b.Alongside rest rest' b' → S b b' → Clean x b r b₁ → Clean x' b' r' b₁' →
      b₁'.pending.length < rest'.length ∨
        (∃ a a', Passing rest rest' b b' b₁ b₁' a a') ∧ T r r' b₁ b₁'

namespace Twin

variable {α β : Type} {S S' : Fact} {T : α → α → Fact} {U : β → β → Fact} {x x' : Build α}
  {f f' : α → Build β}

/-- One step after another that depends on what is known of the outcomes of the first. -/
theorem bindFact (hx : Twin S T x x') (hf : ∀ r r', Twin (T r r') U (f r) (f' r')) :
    Twin S U (x >>= f) (x' >>= f') where
  cumulative := cumulative_bind hx.cumulative fun r => (hf r r).cumulative
  cumulative' := cumulative_bind hx.cumulative' fun r => (hf r r).cumulative'
  shrinking :=
    have := hx.shrinking
    have := fun r => (hf r r).cumulative'
    have := fun r => (hf r r).shrinking
    inferInstance
  runs := by
    intro rest rest' b b' b₂ b₂' s s' hb hS h h'
    obtain ⟨r, b₁, h₁, h₂⟩ := h.bind_of_cumulative fun r => (hf r r).cumulative
    obtain ⟨r', b₁', h₁', h₂'⟩ := h'.bind_of_cumulative fun r => (hf r r).cumulative'
    rcases hx.runs hb hS h₁ h₁' with hpast | ⟨⟨a, a', hpass⟩, hT⟩
    · have := (hf r r').shrinking
      exact .inl (Nat.lt_of_le_of_lt (Shrinking.length_le h₂') hpast)
    · rcases (hf r r').runs hpass.alongside hT h₂ h₂' with hpast | ⟨⟨d, d', hpass'⟩, hU⟩
      · exact .inl hpast
      · exact .inr ⟨⟨_, _, hpass.append hpass'⟩, hU⟩

/-- A step of which less is known before. -/
theorem strengthen (h : Twin S T x x') (hS : ∀ b b', S' b b' → S b b') : Twin S' T x x' :=
  { h with runs := fun hb hfact => h.runs hb (hS _ _ hfact) }

theorem weaken (h : Twin Any T x x') : Twin S T x x' :=
  h.strengthen fun _ _ _ => trivial

/-- What is known before is known afterwards. -/
theorem keep [Lasting S] (h : Twin S T x x') :
    Twin S (fun r r' b b' => S b b' ∧ T r r' b b') x x' :=
  { h with
    runs := fun hb hS hrun hrun' => (h.runs hb hS hrun hrun').imp_right fun ⟨⟨a, a', hpass⟩, hT⟩ =>
      ⟨⟨a, a', hpass⟩, Lasting.last hpass hS, hT⟩ }

/-- One step after another. -/
theorem bind [Lasting S] (hx : Twin S Same x x') (hf : ∀ r, Twin S U (f r) (f' r)) :
    Twin S U (x >>= f) (x' >>= f') := by
  refine hx.keep.bindFact ?_
  intro r r'
  refine ⟨(hf r).cumulative, (hf r').cumulative', (hf r').shrinking, ?_⟩
  rintro rest rest' b b' b₁ b₁' s s' hb ⟨hS, rfl⟩ h h'
  exact (hf r').runs hb hS h h'

/-- Two steps that read no token. -/
theorem of_silent [Cumulative x] [Cumulative x'] [Silent x']
    (h : ∀ {rest rest' : List ScanItem} {b b' b₁ b₁' : Builder} {r r' : α},
      b.Alongside rest rest' b' → S b b' → Clean x b r b₁ → Clean x' b' r' b₁' →
        (∃ a a', Passing rest rest' b b' b₁ b₁' a a') ∧ T r r' b₁ b₁') : Twin S T x x' where
  cumulative := inferInstance
  cumulative' := inferInstance
  shrinking := inferInstance
  runs hb hS hrun hrun' := .inr (h hb hS hrun hrun')

/-- Two steps without outcomes that read no token. -/
theorem of_silent_unit {x x' : Build Unit} [Cumulative x] [Cumulative x'] [Silent x']
    (h : ∀ {rest rest' : List ScanItem} {b b' b₁ b₁' : Builder},
      b.Alongside rest rest' b' → S b b' → Clean x b () b₁ → Clean x' b' () b₁' →
        ∃ a a', Passing rest rest' b b' b₁ b₁' a a') : Twin S Same x x' :=
  of_silent fun hb hS hrun hrun' => ⟨h hb hS hrun hrun', rfl⟩

/-- Two steps without outcomes. -/
theorem of_runs {x x' : Build Unit} [Cumulative x] [Cumulative x'] [Shrinking x']
    (h : ∀ {rest rest' : List ScanItem} {b b' b₁ b₁' : Builder},
      b.Alongside rest rest' b' → S b b' → Clean x b () b₁ → Clean x' b' () b₁' →
        b₁'.pending.length < rest'.length ∨ ∃ a a', Passing rest rest' b b' b₁ b₁' a a') :
    Twin S Same x x' where
  cumulative := inferInstance
  cumulative' := inferInstance
  shrinking := inferInstance
  runs hb hS hrun hrun' := (h hb hS hrun hrun').imp_right fun hpass => ⟨hpass, rfl⟩

/-- Doing nothing is a twin of itself. -/
theorem pure (r : α) : Twin S Same (Pure.pure r : Build α) (Pure.pure r) :=
  of_silent fun hb _ h h' => by
    obtain ⟨rfl, rfl⟩ := h.of_pure
    obtain ⟨rfl, rfl⟩ := h'.of_pure
    exact ⟨⟨_, _, .refl hb⟩, rfl⟩

/-- An outcome of which something is known. -/
theorem pureFact (r r' : α) (h : ∀ b b', S b b' → T r r' b b') :
    Twin S T (Pure.pure r : Build α) (Pure.pure r') :=
  of_silent fun hb hS hrun hrun' => by
    obtain ⟨rfl, rfl⟩ := hrun.of_pure
    obtain ⟨rfl, rfl⟩ := hrun'.of_pure
    exact ⟨⟨_, _, .refl hb⟩, h _ _ hS⟩

theorem fail (token token' : Token) (kind kind' : ErrorKind) :
    Twin S T (Build.fail token kind : Build α) (Build.fail token' kind') :=
  of_silent fun _ _ h _ => absurd h Clean.not_fail

/-- Looking at builders that are alongside. -/
theorem getAlongside {f f' : Builder → Build β} (h : ∀ b b', b.Level b' →
      Twin (fun c c' => S c c' ∧ c = b ∧ c' = b' ∧ ∃ rest rest', c.Alongside rest rest' c') U (f b)
        (f' b')) :
    Twin S U (MonadState.get >>= f) (MonadState.get >>= f') where
  cumulative := cumulative_bind inferInstance fun b => (h b b (.refl b)).cumulative
  cumulative' := cumulative_bind inferInstance fun b => (h b b (.refl b)).cumulative'
  shrinking :=
    have := fun b => (h b b (.refl b)).cumulative'
    have := fun b => (h b b (.refl b)).shrinking
    inferInstance
  runs := by
    intro rest rest' b b' b₁ b₁' r r' hb hS hrun hrun'
    exact (h b b' hb.level).runs hb ⟨hS, rfl, rfl, rest, rest', hb⟩ hrun.bind_get hrun'.bind_get

/-- Looking at builders, of which only what is the same of both counts. -/
theorem get {f f' : Builder → Build β} (h : ∀ b b', b.Level b' → Twin S U (f b) (f' b')) :
    Twin S U (MonadState.get >>= f) (MonadState.get >>= f') :=
  getAlongside fun b b' hlevel => (h b b' hlevel).strengthen fun _ _ => And.left

/-- Looking at the last token where it is known to be the same. -/
theorem getSpoken {f f' : Builder → Build β} (hS : ∀ b b', S b b' → Spoken b b')
    (h : ∀ b b', b'.previous = b.previous → Twin S U (f b) (f' b')) :
    Twin S U (MonadState.get >>= f) (MonadState.get >>= f') where
  cumulative := cumulative_bind inferInstance fun b => (h b b rfl).cumulative
  cumulative' := cumulative_bind inferInstance fun b => (h b b rfl).cumulative'
  shrinking :=
    have := fun b => (h b b rfl).cumulative'
    have := fun b => (h b b rfl).shrinking
    inferInstance
  runs := by
    intro rest rest' b b' b₁ b₁' r r' hb hfact hrun hrun'
    exact (h b b' (hS _ _ hfact)).runs hb hfact hrun.bind_get hrun'.bind_get

/-- A choice of twins is a twin. -/
theorem ite {c : Prop} [Decidable c] {y y' : Build α} (hx : Twin S T x x') (hy : Twin S T y y') :
    Twin S T (if c then x else y) (if c then x' else y') := by
  split
  · exact hx
  · exact hy

/-- Twins for each item of a list are twins. -/
theorem forM {γ : Type} {xs : List γ} [Lasting S] {f f' : γ → Build PUnit}
    (h : ∀ y ∈ xs, Twin S Same (f y) (f' y)) : Twin S Same (xs.forM f) (xs.forM f') := by
  induction xs with
  | nil => exact pure _
  | cons y ys ih =>
    exact (h y List.mem_cons_self).bind fun _ => ih fun z hz => h z (List.mem_cons_of_mem y hz)

/-! ## Tokens -/

/-- Skipping a token is a twin of itself. -/
theorem pass : Twin S Same Build.pass Build.pass where
  cumulative := inferInstance
  cumulative' := inferInstance
  shrinking := inferInstance
  runs := by
    intro rest rest' b b' b₁ b₁' r r' hb _ h h'
    obtain rfl := h.of_pass
    obtain rfl := h'.of_pass
    exact (Passing.take hb).imp_right fun ⟨hpass, _⟩ => ⟨⟨_, _, hpass⟩, rfl⟩

/-- Behind a token that both have taken it is the last one of both. -/
theorem pass_spoken : Twin Any (fun _ _ => Spoken) Build.pass Build.pass where
  cumulative := inferInstance
  cumulative' := inferInstance
  shrinking := inferInstance
  runs := by
    intro rest rest' b b' b₁ b₁' r r' hb _ h h'
    obtain rfl := h.of_pass
    obtain rfl := h'.of_pass
    exact (Passing.take hb).imp_right fun ⟨hpass, hspoken⟩ => ⟨⟨_, _, hpass⟩, hspoken⟩

theorem divide {γ : Type} (xs : List γ) : Twin S Same (Build.divide xs) (Build.divide xs) :=
  ite (pure ()) pass

/-- Complaining is a twin, whatever the token. -/
theorem refuse (token token' : Token) (kind : ErrorKind) (wrong wrong' : Bool) :
    Twin S Same (Build.refuse token kind wrong) (Build.refuse token' kind wrong') := by
  cases wrong with
  | true => exact of_silent fun _ _ h _ => absurd h Clean.not_fail
  | false =>
    cases wrong' with
    | true => exact of_silent fun _ _ _ h => absurd h Clean.not_fail
    | false => exact pure ()

theorem limit (excess : ErrorKind) (count : Nat) :
    Twin S Same (Build.limit excess count) (Build.limit excess count) :=
  get fun _ _ _ => refuse _ _ _ _ _

theorem previousLine : Twin S Same Build.previousLine Build.previousLine :=
  get fun b b' hlevel => by
    rw [hlevel.line]
    exact pure _

/-! ## Code -/

/-- Emitting an instruction without operands is a twin of itself. -/
theorem emitPlain {op : Opcode} (hop : op.operands = .none) (hret : op ≠ .ret) (line : Nat) :
    Twin S Same (Build.emitAt op line) (Build.emitAt op line) :=
  of_silent_unit fun hb _ hrun hrun' => by
    obtain rfl := hrun.of_emitAt
    obtain rfl := hrun'.of_emitAt
    exact ⟨_, _, .emitPlain hb hop hret line⟩

/-- Inside of a function any instruction may be appended. -/
theorem emitInside (op : Opcode) (line : Nat) :
    Twin Inside Same (Build.emitAt op line) (Build.emitAt op line) :=
  of_silent_unit fun hb hne hrun hrun' => by
    obtain rfl := hrun.of_emitAt
    obtain rfl := hrun'.of_emitAt
    exact ⟨_, _, .emit hb ⟨fun hnil => absurd hnil hne, fun _ => rfl⟩⟩

theorem emit [Lasting S] {op : Opcode} (hop : op.operands = .none) (hret : op ≠ .ret) :
    Twin S Same (Build.emit op) (Build.emit op) :=
  previousLine.bind fun line => emitPlain hop hret line

/-- An instruction with one operand. -/
theorem emitWith {op op' : Opcode} {p p' : UInt8} {line : Nat}
    (h : ∀ b b', S b b' → Appendable ⟨op, [p], line⟩ ⟨op', [p'], line⟩ b b') :
    Twin S Same (Build.emitWithAt op p line) (Build.emitWithAt op' p' line) :=
  of_silent_unit fun {_ _ b b' _ _} hb hS hrun hrun' => by
    obtain rfl := hrun.of_emitWithAt
    obtain rfl := hrun'.of_emitWithAt
    refine ⟨_, _, .single hb (.addInstruction b.chunk op p line)
      (.addInstruction b'.chunk op' p' line) rfl rfl (fun hchunk hne => ?_) (h _ _ hS)⟩
    obtain ⟨rfl, hoperands, -⟩ := Instruction.mk.inj ((h _ _ hS).2 hne)
    rw [hchunk, (List.cons.inj hoperands).1]

/-- An instruction that counts something. -/
theorem emitCount {op : Opcode} (hop : op = .call ∨ op = .arrayLiteral) (count : UInt8)
    (line : Nat) :
    Twin S Same (Build.emitWithAt op count line) (Build.emitWithAt op count line) := by
  refine emitWith fun b b' _ => ⟨fun _ => ?_, fun _ => rfl⟩
  rcases hop with rfl | rfl <;> exact .plain rfl (by decide) (by simp) rfl

/-- An instruction with a constant. -/
theorem emitNamed {op : Opcode} (hop : op.operands = .constant) (i i' : UInt8) (line : Nat) :
    Twin (Named i i') Same (Build.emitWithAt op i line) (Build.emitWithAt op i' line) := by
  refine emitWith fun b b' h => h.appendable op ?_ ?_ ?_ line
  · rw [Opcode.refers, hop]
  · rintro rfl
    cases hop
  · rw [Opcode.operandLength, hop]
    rfl

/-- An instruction with a constant that counts something. -/
theorem emitInvocation {op : Opcode} (hop : op.operands = .invocation) (i i' count : UInt8)
    (line : Nat) : Twin (Named i i') Same
      (Build.emitWithAt op i line >>= fun _ => Build.emitByteAt count line)
      (Build.emitWithAt op i' line >>= fun _ => Build.emitByteAt count line) :=
  of_silent_unit fun {_ _ b b' _ _} hb hS hrun hrun' => by
    obtain ⟨_, _, hemit, hbyte⟩ := hrun.bind
    obtain rfl := hemit.of_emitWithAt
    obtain rfl := hbyte.of_emitByteAt
    obtain ⟨_, _, hemit, hbyte⟩ := hrun'.bind
    obtain rfl := hemit.of_emitWithAt
    obtain rfl := hbyte.of_emitByteAt
    have happends := Chunk.Appends.addInstruction b.chunk op i line
    have happends' := Chunk.Appends.addInstruction b'.chunk op i' line
    refine ⟨_, _, .single hb (Chunk.Appends.addByte (a := []) happends count)
      (Chunk.Appends.addByte (a := []) happends' count) rfl rfl (fun hchunk hne => ?_) ?_⟩
    · show (b'.chunk.addInstruction op i' line).addByte count line = _
      rw [hchunk, hS.2 hne]
      rfl
    · refine hS.appendable op ?_ ?_ ?_ line
      · rw [Opcode.refers, hop]
      · rintro rfl
        cases hop
      · rw [Opcode.operandLength, hop]
        rfl

/-! ## Constants -/

/-- Adding a constant to both pools. -/
theorem passing_addConstant {rest rest' : List ScanItem} {b b' : Builder} {v : Value} {i i' : UInt8}
    {k k' : Chunk} (hb : b.Alongside rest rest' b') (hv : v.Compiled)
    (hadd : b.chunk.addConstant v = (some i, k)) (hadd' : b'.chunk.addConstant v = (some i', k')) :
    Passing rest rest' b b' (b.withChunk k) (b'.withChunk k') [] [] ∧
      Named i i' (b.withChunk k) (b'.withChunk k') := by
  obtain ⟨happends, hconstants⟩ := Chunk.Appends.addConstant hadd
  obtain ⟨happends', hconstants'⟩ := Chunk.Appends.addConstant hadd'
  refine ⟨.withChunk hb (fun hcontext => ?_) (fun hchunk _ => ?_)
    ⟨happends, happends', hconstants, hconstants', .nil⟩, fun hscript => ?_, fun hne => ?_⟩
  · exact ⟨(hcontext.stocked.addConstant hv hadd).1, (hcontext.stocked'.addConstant hv hadd').1⟩
  · rw [hchunk, hadd] at hadd'
    exact (Prod.mk.inj hadd').2.symm
  · have hcontext := hb.script hscript
    exact ⟨v, (hcontext.stocked.addConstant hv hadd).2, (hcontext.stocked'.addConstant hv hadd').2⟩
  · have hchunk : b'.chunk = b.chunk := congrArg (·.function.chunk) (hb.inside_eq hne)
    rw [hchunk, hadd] at hadd'
    exact (Option.some.inj (Prod.mk.inj hadd').1).symm

/-- Finding the index of a constant is a twin; the index may be another one. -/
theorem constantAt {v : Value} (hv : v.Compiled) (token token' : Token) :
    Twin S Named (Build.constantAt token v) (Build.constantAt token' v) :=
  of_silent fun hb _ hrun hrun' => by
    obtain ⟨k, hadd, rfl⟩ := hrun.of_constantAt
    obtain ⟨k', hadd', rfl⟩ := hrun'.of_constantAt
    obtain ⟨hpass, hnamed⟩ := passing_addConstant hb hv hadd hadd'
    exact ⟨⟨_, _, hpass⟩, hnamed⟩

theorem constant {v : Value} (hv : v.Compiled) :
    Twin S Named (Build.constant v) (Build.constant v) :=
  get fun _ _ _ => constantAt hv _ _

theorem nameConstant (name : Token) :
    Twin S Named (Build.nameConstant name) (Build.nameConstant name) :=
  constantAt (.inl (by trivial)) _ _

/-- A literal whose numbers are written as a source can have them. -/
theorem literal {token : Token} (h : token.kind = .number → Numeral token.lexeme.toList) :
    Twin S Same (Build.literal token) (Build.literal token) := by
  unfold Build.literal
  split
  · next hkind =>
    unfold numberLiteral
    dsimp only
    split
    · next v hv =>
      refine (constant (.inl ?_)).bindFact fun i i' => emitNamed rfl i i' _
      exact Token.written_of_number? (h hkind) hv
    · exact fail _ _ _ _
  · exact (constant (.inl (by trivial))).bindFact fun i i' => emitNamed rfl i i' _
  · exact emitPlain rfl (by decide) _
  · exact emitPlain rfl (by decide) _
  · exact emitPlain rfl (by decide) _

/-! ## Variables -/

/-- A variable of a function around is reached alike. -/
theorem passing_resolveCapture {rest rest' : List ScanItem} {b b' : Builder} {name : String}
    (hb : b.Alongside rest rest' b') (hname : name ≠ "") (hne : b.enclosing ≠ []) :
    (resolveCapture name b'.context b'.enclosing).index
        = (resolveCapture name b.context b.enclosing).index ∧
      Passing rest rest' b b'
        { b with
          context := (resolveCapture name b.context b.enclosing).context
          enclosing := (resolveCapture name b.context b.enclosing).enclosing }
        { b' with
          context := (resolveCapture name b'.context b'.enclosing).context
          enclosing := (resolveCapture name b'.context b'.enclosing).enclosing } [] [] := by
  rcases hb.cases_context with ⟨hscript, -⟩ | ⟨hcontext, -, -, haround, hcaptures⟩
  · exact absurd hscript hne
  · rw [hcontext]
    obtain ⟨hindex, hsame, henclosing, htakes, hfunction, hbefore, hbefore'⟩ :=
      haround.resolveCapture hname b.context hcaptures
    refine ⟨hindex, ⟨{ hb with contexts := ?_ }, hbefore, hbefore', id, List.prefix_refl _, ?_⟩⟩
    · rw [hsame]
      exact .inside henclosing htakes
    · show Chunk.Twins _ _ b.chunk b'.chunk
        (resolveCapture name b.context b.enclosing).context.function.chunk
        (resolveCapture name b.context b'.enclosing).context.function.chunk [] []
      rw [hsame, hfunction, Builder.chunk, Builder.chunk, hcontext]
      exact .refl _ _ _ _

/-- Resolving a name is a twin of itself, and reaches the same variable. -/
theorem resolve {token : Token} (hname : token.lexeme ≠ "") :
    Twin S Reached (Build.resolve token) (Build.resolve token) :=
  of_silent fun {rest rest' b b' _ _ _ _} hb _ hrun hrun' => by
    have hsame : b'.context.resolveLocal token.lexeme = b.context.resolveLocal token.lexeme := by
      rw [hb.context_eq]
      rfl
    have hscript : b.enclosing = [] → (resolveCapture token.lexeme b.context b.enclosing).index
          = .ok none ∧ (resolveCapture token.lexeme b'.context b'.enclosing).index = .ok none := by
      intro hnil
      rcases hb.cases_context with ⟨-, hnil', -⟩ | ⟨-, hne, -⟩
      · rw [hnil, hnil']
        exact ⟨rfl, rfl⟩
      · exact absurd hnil hne
    have hindex : (resolveCapture token.lexeme b'.context b'.enclosing).index
        = (resolveCapture token.lexeme b.context b.enclosing).index := by
      by_cases hnil : b.enclosing = []
      · rw [(hscript hnil).1, (hscript hnil).2]
      · exact (passing_resolveCapture hb hname hnil).1
    -- The name is found alike in both builds: as a local, as a captured variable or as a global.
    -- The mixed cases contradict `hsame` or `hindex`.
    rcases hrun.of_resolve with ⟨slot, hlocal, rfl, rfl⟩ |
        ⟨hlocal, i, context, enclosing, hfound, rfl, rfl⟩ |
        ⟨hlocal, i, context, enclosing, k, hfound, hadd, rfl, rfl⟩ <;>
      rcases hrun'.of_resolve with ⟨slot', hlocal', rfl, rfl⟩ |
        ⟨hlocal', i', context', enclosing', hfound', rfl, rfl⟩ |
        ⟨hlocal', i', context', enclosing', k', hfound', hadd', rfl, rfl⟩ <;>
      rw [hsame, hlocal] at hlocal' <;> try cases hlocal'
    · refine ⟨⟨_, _, .refl hb⟩, fun line => ⟨⟨fun hnil => ?_, fun _ => rfl⟩, fun hnil => ?_,
        fun _ => rfl⟩⟩
      all_goals
        have hslot := (hb.script hnil).slot_ne_zero hname hlocal
        exact .plain rfl nofun (fun _ hzero => hslot (List.cons.inj hzero).1) rfl
    · have hne : b.enclosing ≠ [] := by
        intro hnil
        have hnone := (hscript hnil).1
        rw [hfound] at hnone
        cases hnone
      have hpass := (passing_resolveCapture hb hname hne).2
      rw [hfound, hfound'] at hindex hpass
      obtain rfl := Option.some.inj (Except.ok.inj hindex)
      exact ⟨⟨_, _, hpass⟩, fun line => ⟨⟨fun hnil => absurd (hpass.enclosing_iff.1 hnil) hne,
        fun _ => rfl⟩, fun hnil => absurd (hpass.enclosing_iff.1 hnil) hne, fun _ => rfl⟩⟩
    · rw [hfound, hfound'] at hindex
      cases hindex
    · rw [hfound, hfound'] at hindex
      cases hindex
    · obtain ⟨rfl, rfl, -⟩ := resolveCapture_none hfound
      obtain ⟨rfl, rfl, -⟩ := resolveCapture_none hfound'
      obtain ⟨hpass, hnamed⟩ := passing_addConstant hb (.inl (by trivial)) hadd hadd'
      exact ⟨⟨_, _, hpass⟩, fun line => ⟨hnamed.appendable .getGlobal rfl nofun rfl line,
        hnamed.appendable .setGlobal rfl nofun rfl line⟩⟩

theorem readVariable {token : Token} (hname : token.lexeme ≠ "") :
    Twin S Same (Build.readVariable token) (Build.readVariable token) :=
  (resolve hname).bindFact fun _ _ => emitWith fun _ _ h => (h _).1

/-- Asking for a superclass is a twin of itself. -/
theorem requireSuperclass (token : Token) :
    Twin S Same (Build.requireSuperclass token) (Build.requireSuperclass token) :=
  get fun b b' hlevel => by
    rw [hlevel.classes]
    split
    · exact fail _ _ _ _
    · exact ite (fail _ _ _ _) (pure ())

/-- Reading `self` is a twin of itself. -/
theorem selfAccess {token : Token} (hname : token.lexeme ≠ "") :
    Twin S Same (Build.selfAccess token) (Build.selfAccess token) :=
  get fun b b' hlevel => by
    rw [hlevel.classes]
    dsimp only
    split
    · exact (fail (S := S) (T := fun _ _ => Any) _ _ _ _).bindFact fun _ _ => readVariable hname
    · exact readVariable hname

/-- A property of the superclass up to its name. -/
theorem inheritedName (keyword name : Token) :
    Twin Any Named (Build.inheritedName keyword name) (Build.inheritedName keyword name) := by
  refine pass.bind fun _ => (requireSuperclass keyword).bind fun _ => ?_
  refine pass.bind fun _ => pass.bind fun _ => (nameConstant name).bindFact fun i i' => ?_
  exact (readVariable (by simp)).bind fun _ => pureFact i i' fun _ _ h => h

theorem readSuperclass [Lasting S] (keyword : Token) :
    Twin S Same (Build.readSuperclass keyword) (Build.readSuperclass keyword) :=
  readVariable (by simp)

theorem propertyName (name : Token) :
    Twin Any Named (Build.propertyName name) (Build.propertyName name) :=
  pass.bind fun _ => pass.bind fun _ => nameConstant name

/-! ## Declarations -/

/-- Adding a local variable is a twin of itself. -/
theorem addLocal (name : String) (token : Token) :
    Twin S Same (Build.addLocal name token) (Build.addLocal name token) :=
  of_silent_unit fun {_ _ b b' _ _} hb _ hrun hrun' => by
    obtain ⟨hroom, rfl⟩ := hrun.of_addLocal
    obtain ⟨-, rfl⟩ := hrun'.of_addLocal
    rw [hb.locals_eq, hb.depth_eq]
    exact ⟨_, _, .withLocals hb _ (fun _ => hroom) fun hcallee => hcallee.cons _⟩

/-- A new variable is a local on both sides, or on none. -/
theorem declareVariable (name : Token) :
    Twin S Same (Build.declareVariable name) (Build.declareVariable name) :=
  of_silent_unit fun hb _ hrun hrun' => by
    rcases hrun.of_declareVariable with ⟨hdepth, rfl⟩ | ⟨hdepth, -, hroom, rfl⟩ <;>
      rcases hrun'.of_declareVariable with ⟨hdepth', rfl⟩ | ⟨hdepth', -, -, rfl⟩ <;>
      rw [hb.depth_eq] at hdepth'
    · exact ⟨_, _, .refl hb⟩
    · exact absurd hdepth hdepth'
    · exact absurd hdepth' hdepth
    · rw [hb.locals_eq, hb.depth_eq]
      exact ⟨_, _, .withLocals hb _ (fun _ => hroom) fun hcallee => hcallee.cons _⟩

/-- The name of a new variable. -/
theorem newName (name : Token) : Twin Any Declared (Build.newName name) (Build.newName name) := by
  refine pass.bind fun _ => (declareVariable name).bind fun _ => get fun b b' hlevel => ?_
  have hdepth : b'.context.depth = b.context.depth := by rw [hlevel.context]
  rw [hdepth]
  refine ite (pureFact none none fun _ _ _ => trivial) ?_
  rw [map_eq_pure_bind]
  exact (nameConstant name).bindFact fun i i' => pureFact (some i) (some i') fun _ _ h => h

/-- Marking a variable as initialized is a twin of itself. -/
theorem markInitialized : Twin S Same Build.markInitialized Build.markInitialized :=
  of_silent_unit fun {_ _ b b' _ _} hb _ hrun hrun' => by
    obtain rfl := hrun.of_markInitialized
    obtain rfl := hrun'.of_markInitialized
    have hmark : ∀ b : Builder, { b with context := b.context.markInitialized } =
        b.withLocals (markFirst b.context.depth b.context.locals) := fun b => by
      rw [FunctionContext.markInitialized_eq]
      rfl
    rw [hmark b, hmark b', hb.locals_eq, hb.depth_eq]
    exact ⟨_, _, .withLocals hb _ (fun hlimit => by rwa [length_markFirst]) fun hcallee =>
      hcallee.markFirst _⟩

/-- Defining a variable is a twin, if the name has been declared on both sides. -/
theorem defineVariable (i? i?' : Option UInt8) :
    Twin (Declared i? i?') Same (Build.defineVariable i?) (Build.defineVariable i?') := by
  cases i? with
  | none =>
    cases i?' with
    | none => exact markInitialized
    | some i' => exact of_silent fun _ hfalse => hfalse.elim
  | some i =>
    cases i?' with
    | none => exact of_silent fun _ hfalse => hfalse.elim
    | some i' => exact previousLine.bind fun line => emitNamed rfl i i' line

/-! ## Scopes -/

/-- Opening a scope is a twin of itself. -/
theorem beginScope : Twin S Same Build.beginScope Build.beginScope :=
  of_silent_unit fun hb _ hrun hrun' => by
    obtain rfl := hrun.of_beginScope
    obtain rfl := hrun'.of_beginScope
    rw [hb.depth_eq]
    exact ⟨_, _, .withDepth hb _⟩

/-- Dropping locals is a twin of itself. -/
theorem drop [Lasting S] (locals : List Local) (line : Nat) :
    Twin S Same (locals.forM fun l => Build.emitAt (dropOp l) line)
      (locals.forM fun l => Build.emitAt (dropOp l) line) := by
  refine forM fun l _ => ?_
  rw [dropOp]
  split
  · exact emitPlain rfl (by decide) line
  · exact emitPlain rfl (by decide) line

/-- Closing a scope is a twin of itself. -/
theorem endScope : Twin S Same Build.endScope Build.endScope :=
  of_runs fun {_ _ b b' b₁ b₁'} hb _ hrun hrun' => by
    have hends : ∀ {b b₁ : Builder}, Clean Build.endScope b () b₁ →
        Clean ((b.context.locals.takeWhile (b.context.depth - 1 < ·.depth)).forM fun l =>
            Build.emitAt (dropOp l) b.previous.line)
          ((b.withDepth (b.context.depth - 1)).withLocals (b.context.locals.drop
            (b.context.locals.takeWhile (b.context.depth - 1 < ·.depth)).length))
              () b₁ := fun h => h
    have hdrop := hends hrun
    have hdrop' := hends hrun'
    rw [hb.locals_eq, hb.depth_eq, hb.line] at hdrop'
    have hdepth := Passing.withDepth hb (b.context.depth - 1)
    have hlocals := Passing.withLocals hdepth.alongside
      (b.context.locals.drop
        (b.context.locals.takeWhile (b.context.depth - 1 < ·.depth)).length)
      (fun hlimit => Nat.le_trans (List.length_drop ▸ Nat.sub_le _ _) hlimit)
      fun hcallee => hcallee.leave _
    refine ((drop _ _).runs (S := Any) hlocals.alongside trivial hdrop hdrop').imp_right ?_
    rintro ⟨⟨a, a', hpass⟩, -⟩
    exact ⟨_, _, (hdepth.append hlocals).append hpass⟩

theorem enclosed {x x' : Build Unit} [Lasting S] (hx : Twin S Same x x') :
    Twin S Same (Build.enclosed x) (Build.enclosed x') :=
  beginScope.bind fun _ => hx.bind fun _ => pass.bind fun _ => endScope

/-! ## Jumps -/

section

-- The longest of these is a sequence of eight steps.
set_option synthInstance.maxSize 512

variable {x x' y y' : Build Unit}

/-- Steps that are passed over if the value on top counts as false. -/
theorem skipping (hx : Twin Any Same x x') (line : Nat) :
    Twin S Same
      (do
        let skip ← Build.emitJump .jumpIfFalse line
        Build.emitAt .pop line
        x
        patchJump skip)
      (do
        let skip ← Build.emitJump .jumpIfFalse line
        Build.emitAt .pop line
        x'
        patchJump skip) := by
  have := hx.cumulative
  have := hx.cumulative'
  have := hx.shrinking
  refine of_runs fun hb _ h h' => ?_
  obtain ⟨_, _, hjump, h⟩ := h.bind
  obtain ⟨rfl, rfl⟩ := hjump.of_emitJump
  obtain ⟨_, _, hpop, h⟩ := h.bind
  obtain rfl := hpop.of_emitAt
  obtain ⟨_, _, hrun, hpatch⟩ := h.bind
  obtain ⟨k, hpatched, rfl⟩ := hpatch.of_patchJump
  obtain ⟨_, _, hjump', h'⟩ := h'.bind
  obtain ⟨rfl, rfl⟩ := hjump'.of_emitJump
  obtain ⟨_, _, hpop', h'⟩ := h'.bind
  obtain rfl := hpop'.of_emitAt
  obtain ⟨_, _, hrun', hpatch'⟩ := h'.bind
  obtain ⟨k', hpatched', rfl⟩ := hpatch'.of_patchJump
  have hstart := Passing.emitJump hb .jumpIfFalse rfl line
  have hpopped := Passing.emitPop hstart.alongside line
  refine (hx.runs hpopped.alongside trivial hrun hrun').imp_right ?_
  rintro ⟨⟨a, a', hpass⟩, -⟩
  have hall := hstart.append (hpopped.append hpass)
  exact ⟨_, _, Passing.patch [] [] rfl hall hb rfl hpatched hpatched'⟩

/-- Steps that are passed over unless the value on top counts as false. -/
theorem avoiding (hx : Twin Any Same x x') (line : Nat) :
    Twin S Same
      (do
        let go ← Build.emitJump .jumpIfFalse line
        let skip ← Build.emitJump .jump line
        patchJump go
        Build.emitAt .pop line
        x
        patchJump skip)
      (do
        let go ← Build.emitJump .jumpIfFalse line
        let skip ← Build.emitJump .jump line
        patchJump go
        Build.emitAt .pop line
        x'
        patchJump skip) := by
  have := hx.cumulative
  have := hx.cumulative'
  have := hx.shrinking
  refine of_runs fun hb _ h h' => ?_
  obtain ⟨_, _, hgo, h⟩ := h.bind
  obtain ⟨rfl, rfl⟩ := hgo.of_emitJump
  obtain ⟨_, _, hskip, h⟩ := h.bind
  obtain ⟨rfl, rfl⟩ := hskip.of_emitJump
  obtain ⟨_, _, hland, h⟩ := h.bind
  obtain ⟨k, hlanded, rfl⟩ := hland.of_patchJump
  obtain ⟨_, _, hpop, h⟩ := h.bind
  obtain rfl := hpop.of_emitAt
  obtain ⟨_, _, hrun, hpatch⟩ := h.bind
  obtain ⟨l, hpatched, rfl⟩ := hpatch.of_patchJump
  obtain ⟨_, _, hgo', h'⟩ := h'.bind
  obtain ⟨rfl, rfl⟩ := hgo'.of_emitJump
  obtain ⟨_, _, hskip', h'⟩ := h'.bind
  obtain ⟨rfl, rfl⟩ := hskip'.of_emitJump
  obtain ⟨_, _, hland', h'⟩ := h'.bind
  obtain ⟨k', hlanded', rfl⟩ := hland'.of_patchJump
  obtain ⟨_, _, hpop', h'⟩ := h'.bind
  obtain rfl := hpop'.of_emitAt
  obtain ⟨_, _, hrun', hpatch'⟩ := h'.bind
  obtain ⟨l', hpatched', rfl⟩ := hpatch'.of_patchJump
  have hstart := Passing.emitJump hb .jumpIfFalse rfl line
  rw [hstart.code.appends.size_eq] at hpatched
  rw [hstart.code.appends'.size_eq] at hpatched'
  have hjumps := hstart.append (Passing.emitJump hstart.alongside .jump rfl line)
  have hlands := Passing.patch [] [] rfl hjumps hb rfl hlanded hlanded'
  have hpopped := Passing.emitPop hlands.alongside line
  refine (hx.runs hpopped.alongside trivial hrun hrun').imp_right ?_
  rintro ⟨⟨a, a', hpass⟩, -⟩
  have hall := hlands.append (hpopped.append hpass)
  exact ⟨_, _, Passing.patch [_] [_] rfl hall hb rfl hpatched hpatched'⟩

/-- Steps that are passed over if the value on top counts as false, and others that are passed over
if it does not. -/
theorem choosing (hx : Twin Any Same x x') (hy : Twin Any Same y y') (line : Nat) :
    Twin S Same
      (do
        let toElse ← Build.emitJump .jumpIfFalse line
        Build.emitAt .pop line
        x
        let toEnd ← Build.emitJump .jump line
        landAndDrop toElse line
        y
        patchJump toEnd)
      (do
        let toElse ← Build.emitJump .jumpIfFalse line
        Build.emitAt .pop line
        x'
        let toEnd ← Build.emitJump .jump line
        landAndDrop toElse line
        y'
        patchJump toEnd) := by
  have := hx.cumulative
  have := hx.cumulative'
  have := hx.shrinking
  have := hy.cumulative
  have := hy.cumulative'
  have := hy.shrinking
  refine of_runs fun hb _ h h' => ?_
  -- Both builds are taken apart step for step; the primes are those of the second.
  obtain ⟨_, _, helse, h⟩ := h.bind
  obtain ⟨rfl, rfl⟩ := helse.of_emitJump
  obtain ⟨_, _, hpop, h⟩ := h.bind
  obtain rfl := hpop.of_emitAt
  obtain ⟨_, _, hrun, h⟩ := h.bind
  obtain ⟨_, _, hend, h⟩ := h.bind
  obtain ⟨rfl, rfl⟩ := hend.of_emitJump
  obtain ⟨_, _, hland, h⟩ := h.bind
  obtain ⟨_, _, hland, hdrop⟩ := hland.bind
  obtain ⟨k, hlanded, rfl⟩ := hland.of_patchJump
  obtain rfl := hdrop.of_emitAt
  obtain ⟨_, _, hother, hpatch⟩ := h.bind
  obtain ⟨l, hpatched, rfl⟩ := hpatch.of_patchJump
  obtain ⟨_, _, helse', h'⟩ := h'.bind
  obtain ⟨rfl, rfl⟩ := helse'.of_emitJump
  obtain ⟨_, _, hpop', h'⟩ := h'.bind
  obtain rfl := hpop'.of_emitAt
  obtain ⟨_, _, hrun', h'⟩ := h'.bind
  obtain ⟨_, _, hend', h'⟩ := h'.bind
  obtain ⟨rfl, rfl⟩ := hend'.of_emitJump
  obtain ⟨_, _, hland', h'⟩ := h'.bind
  obtain ⟨_, _, hland', hdrop'⟩ := hland'.bind
  obtain ⟨k', hlanded', rfl⟩ := hland'.of_patchJump
  obtain rfl := hdrop'.of_emitAt
  obtain ⟨_, _, hother', hpatch'⟩ := h'.bind
  obtain ⟨l', hpatched', rfl⟩ := hpatch'.of_patchJump
  have hstart := Passing.emitJump hb .jumpIfFalse rfl line
  have hpopped := Passing.emitPop hstart.alongside line
  rcases hx.runs hpopped.alongside trivial hrun hrun' with hpast | ⟨⟨a, a', hpass⟩, -⟩
  · -- Who has read past the common tokens has done so at the end, too.
    have hless := Shrinking.length_le hother'
    exact .inl (Nat.lt_of_le_of_lt hless hpast)
  -- Both jumps have been emitted in code of the same shape, so each is patched at the same offset
  -- behind its start in the two builds.
  have hfront := hstart.append (hpopped.append hpass)
  rw [hfront.code.appends.size_eq] at hpatched
  rw [hfront.code.appends'.size_eq] at hpatched'
  have hjumps := hfront.append (Passing.emitJump hfront.alongside .jump rfl line)
  simp only [List.cons_append, List.nil_append] at hjumps
  have hlands := Passing.patch [] [] rfl hjumps hb rfl hlanded hlanded'
  have hdropped := Passing.emitPop hlands.alongside line
  refine (hy.runs hdropped.alongside trivial hother hother').imp_right ?_
  rintro ⟨⟨d, d', hpass'⟩, -⟩
  have hall := hlands.append (hdropped.append hpass')
  have hlength : a.length = a'.length := hpass.code.code.length_eq
  simp only [List.nil_append, List.cons_append, List.append_assoc] at hall
  refine ⟨_, _, Passing.patch (⟨.jumpIfFalse, _, line⟩ :: ⟨.pop, [], line⟩ :: a)
    (⟨.jumpIfFalse, _, line⟩ :: ⟨.pop, [], line⟩ :: a') rfl hall hb ?_ hpatched hpatched'⟩
  rw [List.length_cons, List.length_cons, List.length_cons, List.length_cons, hlength]

/-- A conditional statement. -/
theorem branch {c c' : Build Unit} (hc : Twin Any Same c c') (hx : Twin Any Same x x')
    (hy : Twin Any Same y y') :
    Twin Any Same (Build.branch c x y) (Build.branch c' x' y') :=
  hc.bind fun _ => previousLine.bind fun line => pass.bind fun _ => choosing hx.enclosed hy line

/-- A loop. -/
theorem cycle {c c' : Build Unit} (hc : Twin Any Same c c') (hx : Twin Any Same x x') :
    Twin Any Same (Build.cycle c x) (Build.cycle c' x') := by
  -- The part of the loop in front of the jump is one step, since its line is needed behind the
  -- condition.
  have hbody := hx.enclosed
  have hhead : Twin Any Same
    (c >>= fun _ => Build.previousLine >>= fun line => Build.pass >>= fun _ =>
      Pure.pure line) (c' >>= fun _ => Build.previousLine >>= fun line => Build.pass >>= fun _ =>
      Pure.pure line) :=
    hc.bind fun _ => previousLine.bind fun line => pass.bind fun _ => pure line
  have hcycle : ∀ c x : Build Unit, Build.cycle c x = (do
      let start ← codeSize
      let line ← c >>= fun _ => Build.previousLine >>= fun line => Build.pass >>= fun _ =>
        Pure.pure line
      let toEnd ← Build.emitJump .jumpIfFalse line
      Build.emitAt .pop line
      Build.enclosed x
      emitLoop start line
      landAndDrop toEnd line) := fun c x => by
    simp only [Build.cycle, bind_assoc, pure_bind]
  rw [hcycle, hcycle]
  have := hhead.cumulative
  have := hhead.cumulative'
  have := hhead.shrinking
  have := hbody.cumulative
  have := hbody.cumulative'
  have := hbody.shrinking
  refine of_runs fun hb _ h h' => ?_
  -- Both builds are taken apart step for step, as for the branches above.
  obtain ⟨_, _, hsize, h⟩ := h.bind
  obtain ⟨rfl, rfl⟩ := hsize.of_codeSize
  obtain ⟨line, _, hcond, h⟩ := h.bind
  obtain ⟨_, _, hend, h⟩ := h.bind
  obtain ⟨rfl, rfl⟩ := hend.of_emitJump
  obtain ⟨_, _, hpop, h⟩ := h.bind
  obtain rfl := hpop.of_emitAt
  obtain ⟨_, _, hrun, h⟩ := h.bind
  obtain ⟨_, _, hback, h⟩ := h.bind
  obtain ⟨k, hloop, rfl⟩ := hback.of_emitLoop
  obtain ⟨_, _, hland, hdrop⟩ := h.bind
  obtain ⟨l, hlanded, rfl⟩ := hland.of_patchJump
  obtain rfl := hdrop.of_emitAt
  obtain ⟨_, _, hsize', h'⟩ := h'.bind
  obtain ⟨rfl, rfl⟩ := hsize'.of_codeSize
  obtain ⟨line', _, hcond', h'⟩ := h'.bind
  obtain ⟨_, _, hend', h'⟩ := h'.bind
  obtain ⟨rfl, rfl⟩ := hend'.of_emitJump
  obtain ⟨_, _, hpop', h'⟩ := h'.bind
  obtain rfl := hpop'.of_emitAt
  obtain ⟨_, _, hrun', h'⟩ := h'.bind
  obtain ⟨_, _, hback', h'⟩ := h'.bind
  obtain ⟨k', hloop', rfl⟩ := hback'.of_emitLoop
  obtain ⟨_, _, hland', hdrop'⟩ := h'.bind
  obtain ⟨l', hlanded', rfl⟩ := hland'.of_patchJump
  obtain rfl := hdrop'.of_emitAt
  rcases hhead.runs hb trivial hcond hcond' with hpast | ⟨⟨a, a', hpass⟩, rfl⟩
  · have hless := Shrinking.length_le hrun'
    exact .inl (Nat.lt_of_le_of_lt hless hpast)
  have hjump := hpass.append (Passing.emitJump hpass.alongside .jumpIfFalse rfl line')
  have hpopped := hjump.append (Passing.emitPop hjump.alongside line')
  refine (hbody.runs hpopped.alongside trivial hrun hrun').imp_right ?_
  rintro ⟨⟨d, d', hpass'⟩, -⟩
  -- The loop goes back by the length of its own code, which is the same in both.
  obtain ⟨i, hlooped⟩ := (hpopped.append hpass').addLoop hb hloop hloop'
  simp only [List.append_assoc, List.cons_append, List.nil_append] at hlooped
  rw [hpass.code.appends.size_eq] at hlanded
  rw [hpass.code.appends'.size_eq] at hlanded'
  have hlands := Passing.patch a a' rfl hlooped hb hpass.code.code.length_eq hlanded hlanded'
  exact ⟨_, _, hlands.append (Passing.emitPop hlands.alongside _)⟩

end

end Twin

end Build

end ScriptVM
