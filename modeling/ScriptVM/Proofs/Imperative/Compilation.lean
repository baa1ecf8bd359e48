/-
# Building imperative code

The code that is built for an imperative expression computes its value, and that of an imperative
statement performs it.  While such code is built, the function at hand is the script, nothing is
captured, and the locals are the variables of the blocks around in their order (`Drafted`), so that
a variable is looked up in the slot where it is found on the machine.

Main statements: `Expr.computing` and `Decl.performingAll`.
-/
import ScriptVM.Proofs.Imperative.Literals
import ScriptVM.Proofs.Imperative.Pieces
import ScriptVM.Proofs.Program.Functions
import ScriptVM.Proofs.Syntax.Translation

namespace ScriptVM

open Build (Clean Cumulative)

theorem Value.Written.hasInstance {v : Value} (h : v.Written) : v.hasInstance = false := by
  cases v <;> first | rfl | exact absurd h id

theorem Eval.ofOperator_map (r : Except ValueError Value) (f : Value → Value) :
    (do Eval.ofOperator (.ok (f (← Eval.ofOperator r)))) = Eval.ofOperator (r.map f) := by
  cases r <;> rfl

/-! ## Drafts -/

/-- The locals of the blocks around, innermost first, above the slot of the callee. -/
def localsOf : List (List String) → List Local
  | [] => [⟨"", 0, true, false⟩]
  | scope :: rest => scope.map (⟨·, rest.length + 1, true, false⟩) ++ localsOf rest

/-- **A builder at a place of a script**, in some blocks with their variables.  Fresh variables are
declared but have no value yet. -/
structure Drafted (names : List (List String)) (fresh : List String) (b : Builder) : Prop where
  /-- The script is at hand. -/
  kind : b.context.function.kind = .script
  /-- The script has no parameters. -/
  arity : b.context.function.arity = 0
  /-- No function is around. -/
  enclosing : b.enclosing = []
  /-- The blocks are counted. -/
  depth : b.context.depth = names.length
  /-- The locals are the variables. -/
  locals : b.context.locals = fresh.map (⟨·, names.length, false, false⟩) ++ localsOf names
  /-- The locals can be numbered. -/
  room : b.context.locals.length ≤ FunctionContext.localLimit
  /-- The constants can be numbered. -/
  size_constants : b.chunk.constants.size ≤ Chunk.constantLimit
  /-- The constants are written in the source. -/
  written : ∀ v ∈ b.chunk.constants.toList, v.Written

/-- Code is appended, and the builder is at a place of a script then. -/
structure Drafts (names : List (List String)) (fresh : List String) (b b' : Builder) (code : Code) :
    Prop where
  /-- The place. -/
  drafted : Drafted names fresh b'
  /-- The code. -/
  code : b.chunk.Appends b'.chunk code
  /-- The constants stay. -/
  constants : b.chunk.constants.toList <+: b'.chunk.constants.toList

namespace Drafted

variable {names : List (List String)} {fresh : List String} {b : Builder}
  {chunk : Chunk} {code : Code}
  {index : UInt8} {v : Value}

theorem refl (h : Drafted names fresh b) : Drafts names fresh b b [] :=
  ⟨h, .refl _, List.prefix_refl _⟩

theorem take (h : Drafted names fresh b) : Drafts names fresh b b.take [] :=
  ⟨{ h with }, .refl _, List.prefix_refl _⟩

/-- The same constants with other code. -/
theorem withChunk (h : Drafted names fresh b) (hcode : b.chunk.Appends chunk code)
    (hconstants : chunk.constants = b.chunk.constants) :
    Drafts names fresh b (b.withChunk chunk) code where
  drafted := { h with
    size_constants := hconstants ▸ h.size_constants
    written := hconstants ▸ h.written }
  code := hcode
  constants := by
    show b.chunk.constants.toList <+: chunk.constants.toList
    exact hconstants ▸ List.prefix_refl _

theorem emit (h : Drafted names fresh b) (op : Opcode) (line : Nat) :
    Drafts names fresh b (b.emit op line) [⟨op, [], line⟩] :=
  h.withChunk (.addOpcode _ op line) rfl

theorem emitWith (h : Drafted names fresh b) (op : Opcode) (operand : UInt8) (line : Nat) :
    Drafts names fresh b (b.emitWith op operand line) [⟨op, [operand], line⟩] :=
  h.withChunk (.addInstruction _ op operand line) rfl

theorem emitJump (h : Drafted names fresh b) (op : Opcode) (line : Nat) :
    Drafts names fresh b (b.emitJump op line) [⟨op, [0xFF, 0xFF], line⟩] :=
  h.withChunk (.addJump _ op line) rfl

/-- **A constant is the value that is written.** -/
theorem addConstant (h : Drafted names fresh b) (hv : v.Written)
    (hadd : b.chunk.addConstant v = (some index, chunk)) :
    Drafts names fresh b (b.withChunk chunk) [] ∧
      chunk.constants.toList[index.toNat]? = some v := by
  have hok : ConstantsOk 0 b.chunk.constants :=
    ⟨h.size_constants, fun f hf => False.elim (h.written (.functionRef f) hf)⟩
  obtain ⟨⟨w, hw, hsame⟩, hprefix, hok', hcode⟩ :=
    Chunk.addConstant_some hadd hok fun f hf => False.elim (hf ▸ hv : (Value.functionRef f).Written)
  have hwritten : ∀ u ∈ chunk.constants.toList, u.Written := fun u hu =>
    (Chunk.mem_of_addConstant hadd hu).elim (h.written u) fun huv => huv ▸ hv
  obtain rfl : w = v :=
    hsame.elim id (Value.eq_of_sameConstant (hwritten w (Array.mem_toList_iff.2
      (Array.mem_of_getElem? hw))) hv)
  refine ⟨⟨{ h with size_constants := hok'.size_le, written := hwritten }, hcode, hprefix⟩, ?_⟩
  rw [Array.getElem?_toList]
  exact hw

end Drafted

namespace Drafts

variable {names names' : List (List String)} {fresh fresh' : List String} {b b₁ b₂ : Builder}
  {chunk : Chunk} {code c₁ c₂ : Code} {op : Opcode} {x y : UInt8} {line offset : Nat}

theorem trans (h₁ : Drafts names fresh b b₁ c₁) (h₂ : Drafts names' fresh' b₁ b₂ c₂) :
    Drafts names' fresh' b b₂ (c₁ ++ c₂) :=
  ⟨h₂.drafted, h₁.code.trans h₂.code, h₁.constants.trans h₂.constants⟩

theorem take (h : Drafts names fresh b b₁ code) : Drafts names fresh b b₁.take code :=
  ⟨h.drafted.take.drafted, h.code, h.constants⟩

/-- A jump that is patched leads behind the code at hand. -/
theorem patchJump (front : Code)
    (h : Drafts names fresh b b₁ (front ++ ⟨op, [x, y], line⟩ :: code))
    (hpatch : b₁.chunk.patchJump offset = .ok chunk)
    (hoffset : offset = b.chunk.size + front.extent) :
    code.extent ≤ Chunk.distanceLimit ∧
      Drafts names fresh b (b₁.withChunk chunk)
        (front ++ ⟨op, distanceBytes code.extent, line⟩ :: code) ∧
      (b₁.withChunk chunk).chunk.constants = b₁.chunk.constants := by
  subst hoffset
  obtain ⟨hlimit, hcode, hconstants⟩ := h.code.patchJump hpatch
  refine ⟨hlimit, ⟨{ h.drafted with
    size_constants := hconstants ▸ h.drafted.size_constants
    written := hconstants ▸ h.drafted.written }, hcode, ?_⟩, hconstants⟩
  show b.chunk.constants.toList <+: chunk.constants.toList
  rw [hconstants]
  exact h.constants

end Drafts

/-! ## Variables -/

/-- Another slot below all others puts every variable one slot higher. -/
theorem slotOf_concat_empty {name : String} (hname : name ≠ "") (xs : List String) :
    slotOf name (xs ++ [""]) = (slotOf name xs).map (· + 1) := by
  induction xs with
  | nil => exact if_neg (Ne.symm hname)
  | cons x xs ih =>
    rw [List.cons_append, slotOf, slotOf, ih]
    split
    · rw [List.length_append]
      rfl
    · rfl

theorem lt_length_of_slotOf {name : String} {xs : List String} {j : Nat}
    (h : slotOf name xs = some j) : j < xs.length :=
  lt_length_of_slot? (slot?_of_slotOf h)

/-- The locals of a function are named like the variables in scope, above the slot of the
function. -/
theorem map_name_localsOf (names : List (List String)) :
    (localsOf names).map (·.name) = names.flatten ++ [""] := by
  induction names with
  | nil => rfl
  | cons scope rest ih =>
    rw [localsOf, List.map_append, ih, List.map_map, List.flatten_cons, List.append_assoc]
    congr 1
    exact List.map_id _

/-- All locals of the blocks around have their values and are not captured. -/
theorem mem_localsOf {names : List (List String)} {l : Local} (h : l ∈ localsOf names) :
    l.initialized = true ∧ l.captured = false ∧ l.depth ≤ names.length := by
  induction names with
  | nil =>
    obtain rfl := List.mem_singleton.1 h
    exact ⟨rfl, rfl, Nat.le_refl 0⟩
  | cons scope rest ih =>
    rcases List.mem_append.1 h with h | h
    · obtain ⟨name, -, rfl⟩ := List.mem_map.1 h
      exact ⟨rfl, rfl, Nat.le_refl _⟩
    · obtain ⟨hinit, hcaptured, hdepth⟩ := ih h
      exact ⟨hinit, hcaptured, Nat.le_succ_of_le hdepth⟩

/-- A fresh variable is found before all others, but cannot be used. -/
theorem FunctionContext.findLocal?_fresh (name : String) (depth : Nat) (fresh : List String)
    (locals : List Local) :
    (∃ slot l, findLocal? name (fresh.map (⟨·, depth, false, false⟩) ++ locals) = some (slot, l) ∧
        l.initialized = false) ∨
      findLocal? name (fresh.map (⟨·, depth, false, false⟩) ++ locals) =
        findLocal? name locals := by
  induction fresh with
  | nil => exact .inr rfl
  | cons x fresh ih =>
    rw [List.map_cons, List.cons_append, findLocal?]
    split
    · exact .inl ⟨_, _, rfl, rfl⟩
    · exact ih

/-- How the variable of a name is reached: in its slot, or by its name. -/
inductive Locates (constants : List Value) (names : List (List String)) (name : String) :
    Build.Access → Prop
  | slot {j : Nat} {i : UInt8} (hslot : slotOf name names.flatten = some j) (hi : i.toNat = j + 1) :
      Locates constants names name ⟨.getLocal, .setLocal, i⟩
  | global {i : UInt8} (hslot : slotOf name names.flatten = none)
      (hi : constants[i.toNat]? = some (.string name)) :
      Locates constants names name ⟨.getGlobal, .setGlobal, i⟩

namespace Locates

variable {K K' : List Value} {names : List (List String)} {name : String} {access : Build.Access}
  {line h : Nat} {a : Code} {x : Eval Value}

/-- A variable is where it was when constants are added. -/
theorem mono (hfound : Locates K names name access) (hK : K <+: K') :
    Locates K' names name access := by
  cases hfound with
  | slot hslot hi => exact .slot hslot hi
  | global hslot hi => exact .global hslot (getElem?_of_isPrefix hK hi)

/-- An instruction that reads a variable computes the reading of its name. -/
theorem read (hfound : Locates K names name access) :
    Computes K names [⟨access.getOp, [access.index], line⟩] 1 (Eval.read name) := by
  cases hfound with
  | slot hslot hi => exact .readLocal hslot hi
  | global hslot hi => exact .readGlobal hslot hi

/-- An instruction that assigns a variable computes the assignment of its name. -/
theorem assign (hfound : Locates K names name access) (hx : Computes K names a h x) :
    Computes K names (a ++ [⟨access.setOp, [access.index], line⟩]) h (do
      let v ← x
      Eval.assign name v
      return v) := by
  cases hfound with
  | slot hslot hi => exact .assignLocal hx hslot hi
  | global hslot hi => exact .assignGlobal hx hslot hi

end Locates

namespace Drafted

variable {names : List (List String)} {fresh : List String} {b b' : Builder} {token : Token}
  {name : String} {access : Build.Access}

/-- A name is resolved to the slot of the newest variable in scope. -/
theorem resolveLocal {slot? : Option UInt8} (h : Drafted names fresh b) (hname : name ≠ "")
    (hresolve : b.context.resolveLocal name = .ok slot?) :
    slot? = (slotOf name names.flatten).map fun j => UInt8.ofNat (j + 1) := by
  have hold : b.context.resolveLocal name =
      ({ b.context with locals := localsOf names } : FunctionContext).resolveLocal name := by
    unfold FunctionContext.resolveLocal at hresolve ⊢
    rw [h.locals] at hresolve ⊢
    rcases FunctionContext.findLocal?_fresh name names.length fresh (localsOf names) with
      ⟨slot, l, hfind, hinit⟩ | hfind
    · rw [hfind] at hresolve
      dsimp only at hresolve
      rw [if_neg (Bool.eq_false_iff.1 hinit)] at hresolve
      cases hresolve
    · rw [hfind]
  rw [hold, FunctionContext.resolveLocal_of_initialized fun l hl => (mem_localsOf hl).1,
    map_name_localsOf, slotOf_concat_empty hname] at hresolve
  rw [← Except.ok.inj hresolve, Option.map_map]
  rfl

/-- **A variable is looked up where it is on the machine.** -/
theorem resolve (h : Drafted names fresh b) (hname : token.lexeme ≠ "")
    (hclean : Clean (Build.resolve token) b access b') :
    Drafts names fresh b b' [] ∧ Locates b'.chunk.constants.toList names token.lexeme access := by
  have houter : ∀ context : FunctionContext,
      resolveCapture token.lexeme context b.enclosing = ⟨.ok none, context, []⟩ := by
    intro context
    rw [h.enclosing, resolveCapture]
  rcases hclean.of_resolve with ⟨slot, hlocal, rfl, rfl⟩ |
    ⟨-, index, context, enclosing, hfound, -, -⟩ |
    ⟨hlocal, index, context, enclosing, chunk, hfound, hadd, rfl, rfl⟩
  · obtain ⟨j, hslot, rfl⟩ := Option.map_eq_some_iff.1 (h.resolveLocal hname hlocal).symm
    refine ⟨h.refl, .slot hslot (UInt8.toNat_ofNat_of_lt' ?_)⟩
    have hlt := lt_length_of_slotOf hslot
    have hroom := h.room
    have hlength := congrArg List.length (map_name_localsOf names)
    rw [h.locals, List.length_append] at hroom
    rw [List.length_map, List.length_append, List.length_singleton] at hlength
    unfold FunctionContext.localLimit at hroom
    show j + 1 < 256
    omega
  · rw [houter] at hfound
    cases hfound
  · rw [houter] at hfound
    obtain ⟨-, rfl, rfl⟩ := Resolution.mk.inj hfound
    have hnone := (h.resolveLocal hname hlocal).symm
    rw [Option.map_eq_none_iff] at hnone
    obtain ⟨hdrafts, hconstant⟩ := h.addConstant (v := .string token.lexeme) trivial hadd
    refine ⟨⟨{ hdrafts.drafted with enclosing := rfl }, hdrafts.code, hdrafts.constants⟩,
      .global hnone hconstant⟩

end Drafted

/-! ## Steps that build expressions -/

/-- A step appends code that computes a value. -/
def Build.Computing (names : List (List String)) (fresh : List String) (step : Build Unit)
    (height : Nat) (x : Eval Value) : Prop :=
  ∀ ⦃b b' : Builder⦄ ⦃u : Unit⦄, Drafted names fresh b → Clean step b u b' →
    ∃ code, Drafts names fresh b b' code ∧ Computes b'.chunk.constants.toList names code height x

namespace Build.Computing

variable {names : List (List String)} {fresh : List String} {step step' : Build Unit}
  {h h₁ h₂ line : Nat} {x y : Eval Value} {op : Opcode} {v : Value} {token : Token}

/-- Tokens around an expression add nothing. -/
theorem passing (hx : Computing names fresh step h x) [Cumulative step] :
    Computing names fresh (do pass; step) h x := by
  intro b b' u hb hclean
  obtain ⟨_, _, hpass, hclean⟩ := hclean.bind
  obtain rfl := hpass.of_pass
  obtain ⟨code, hdrafts, hcomputes⟩ := hx hb.take.drafted hclean
  exact ⟨code, hb.take.trans hdrafts, hcomputes⟩

/-- A token that is skipped behind a step computes nothing. -/
theorem passed (hx : Computing names fresh step h x) :
    Computing names fresh (do step; pass) h x := by
  intro b b' u hb hclean
  obtain ⟨_, b₁, hstep, hclean⟩ := hclean.bind
  obtain ⟨code, hdrafts, hcomputes⟩ := hx hb hstep
  obtain rfl := hclean.of_pass
  exact ⟨code, hdrafts.take, hcomputes⟩

/-- An instruction that pushes a value computes it. -/
theorem emitAt (hop : Exec.execute op = Exec.proceed (Exec.push v)) (hv : v.hasInstance = false) :
    Computing names fresh (Build.emitAt op line) 1 (pure v) := by
  intro b b' u hb hclean
  obtain rfl := hclean.of_emitAt
  exact ⟨_, hb.emit op line, .push hop hv⟩

/-- An instruction that pushes a constant computes it. -/
theorem constant (hv : v.Written) :
    Computing names fresh (do Build.emitWithAt .constant (← Build.constant v) line) 1 (pure v) := by
  intro b b' u hb hclean
  obtain ⟨index, b₁, hconstant, hclean⟩ := hclean.bind
  obtain ⟨chunk, hadd, rfl⟩ := hconstant.of_constant
  obtain rfl := hclean.of_emitWithAt
  obtain ⟨hdrafts, hindex⟩ := hb.addConstant hv hadd
  exact ⟨_, hdrafts.trans (hdrafts.drafted.emitWith .constant index line),
    .constant hindex hv.hasInstance⟩

/-- A number, a text, `true`, `false` or `nil`. -/
theorem literal (hv : token.literal? = some v)
    (hnumber : token.kind = .number → Numeral token.lexeme.toList) :
    Computing names fresh (Build.literal token) 1 (pure v) := by
  unfold Token.literal? at hv
  unfold Build.literal
  split at hv
  · next hkind =>
    have hvalue : (if token.lexeme.toList.contains '.' then
        (Decimal.read token.lexeme).map Value.number
        else (Decimal.readInt token.lexeme).map Value.int) = some v := hv
    rw [hkind]
    dsimp only
    unfold Build.numberLiteral
    rw [hvalue]
    exact constant (Token.written_of_number? (hnumber hkind) hv)
  · next hkind =>
    obtain rfl := Option.some.inj hv
    rw [hkind]
    exact constant trivial
  · next hkind =>
    obtain rfl := Option.some.inj hv
    rw [hkind]
    exact emitAt rfl rfl
  · next hkind =>
    obtain rfl := Option.some.inj hv
    rw [hkind]
    exact emitAt rfl rfl
  · next hkind =>
    obtain rfl := Option.some.inj hv
    rw [hkind]
    exact emitAt rfl rfl
  · cases hv

/-- A name that is read computes the reading of its variable. -/
theorem readVariable (hname : token.lexeme ≠ "") :
    Computing names fresh (Build.readVariable token) 1 (Eval.read token.lexeme) := by
  intro b b' u hb hclean
  unfold Build.readVariable at hclean
  obtain ⟨access, b₁, hresolve, hclean⟩ := hclean.bind
  obtain ⟨hdrafts, hlocates⟩ := hb.resolve hname hresolve
  obtain rfl := hclean.of_emitWithAt
  exact ⟨_, hdrafts.trans (hdrafts.drafted.emitWith access.getOp access.index token.line),
    hlocates.read⟩

/-- A unary operator computes what it does to its operand. -/
theorem unary {f : Value → Except ValueError Value} (hx : Computing names fresh step h x)
    (hop : Exec.execute op = Exec.proceed (Exec.applyUnary f))
    (hf : ∀ v w, f v = .ok w → w.isScalar = true) :
    Computing names fresh (do step; Build.emitAt op line) h (do Eval.ofOperator (f (← x))) := by
  intro b b' u hb hclean
  obtain ⟨_, b₁, hstep, hclean⟩ := hclean.bind
  obtain ⟨code, hdrafts, hcomputes⟩ := hx hb hstep
  obtain rfl := hclean.of_emitAt
  exact ⟨_, hdrafts.trans (hdrafts.drafted.emit op line), hcomputes.unary hop hf⟩

/-- Two operands, of which the second is behind a token. -/
theorem operands {b b' : Builder} {u : Unit} {rest : Build Unit} [Cumulative step]
    [Cumulative step']
    [Cumulative rest] (hx : Computing names fresh step h₁ x) (hy : Computing names fresh step' h₂ y)
    (hb : Drafted names fresh b) (hclean : Clean (do step; pass; step'; rest) b u b') :
    ∃ b₁ c₁ c₂, Drafts names fresh b b₁ (c₁ ++ c₂) ∧
      Computes b₁.chunk.constants.toList names c₁ h₁ x ∧
      Computes b₁.chunk.constants.toList names c₂ h₂ y ∧ Clean rest b₁ u b' := by
  obtain ⟨_, b₁, hstep, hclean⟩ := hclean.bind
  obtain ⟨c₁, hdrafts, hcomputes⟩ := hx hb hstep
  obtain ⟨_, _, hpass, hclean⟩ := hclean.bind
  obtain rfl := hpass.of_pass
  obtain ⟨_, b₂, hstep', hclean⟩ := hclean.bind
  obtain ⟨c₂, hdrafts', hcomputes'⟩ := hy hdrafts.take.drafted hstep'
  exact ⟨b₂, c₁, c₂, hdrafts.take.trans hdrafts', hcomputes.mono hdrafts'.constants, hcomputes',
    hclean⟩

/-- An operator between two operands that has an instruction of its own. -/
theorem binary [Cumulative step] [Cumulative step'] {f : Value → Value → Except ValueError Value}
    (hx : Computing names fresh step h₁ x) (hy : Computing names fresh step' h₂ y)
    (hop : Exec.execute op = Exec.proceed (Exec.applyBinary f))
    (hf : ∀ v w u, f v w = .ok u → u.isScalar = true) :
    Computing names fresh (do step; pass; step'; [op].forM fun op => Build.emitAt op line)
      (max h₁ (h₂ + 1)) (do
        let v ← x
        let w ← y
        Eval.ofOperator (f v w)) := by
  intro b b' u hb hclean
  obtain ⟨b₁, c₁, c₂, hdrafts, hx₁, hy₁, hclean⟩ := operands hx hy hb hclean
  obtain ⟨_, b₂, hemit, hclean⟩ := hclean.forM_cons
  obtain rfl := hemit.of_emitAt
  obtain rfl := hclean.forM_nil
  exact ⟨_, hdrafts.trans (hdrafts.drafted.emit op line), hx₁.binary hy₁ hop hf⟩

/-- An operator between two operands that denies another one. -/
theorem binaryNot [Cumulative step] [Cumulative step'] {f : Value → Value → Except ValueError Value}
    (hx : Computing names fresh step h₁ x) (hy : Computing names fresh step' h₂ y)
    (hop : Exec.execute op = Exec.proceed (Exec.applyBinary f))
    (hf : ∀ v w u, f v w = .ok u → u.isScalar = true) :
    Computing names fresh (do step; pass; step'; [op, .not].forM fun op => Build.emitAt op line)
      (max h₁ (h₂ + 1)) (do
        let v ← x
        let w ← y
        Eval.ofOperator ((f v w).map Value.not)) := by
  intro b b' u hb hclean
  obtain ⟨b₁, c₁, c₂, hdrafts, hx₁, hy₁, hclean⟩ := operands hx hy hb hclean
  obtain ⟨_, b₂, hemit, hclean⟩ := hclean.forM_cons
  obtain rfl := hemit.of_emitAt
  obtain ⟨_, b₂, hemit, hclean⟩ := hclean.forM_cons
  obtain rfl := hemit.of_emitAt
  obtain rfl := hclean.forM_nil
  have hdrafts' := hdrafts.trans (hdrafts.drafted.emit op line)
  refine ⟨_, hdrafts'.trans (hdrafts'.drafted.emit .not line), ?_⟩
  have hscalar : ∀ v w : Value, (.ok v.not : Except ValueError Value) = .ok w → w.isScalar = true :=
    fun _ _ hw => Except.ok.inj hw ▸ rfl
  have hnot : Computes b₁.chunk.constants.toList names
      (c₁ ++ c₂ ++ [⟨op, [], line⟩] ++ [⟨.not, [], line⟩]) _ _ :=
    (hx₁.binary hy₁ hop hf).unary rfl hscalar
  simp only [bind_assoc, Eval.ofOperator_map] at hnot
  exact hnot

/-- `&&` -/
theorem conjunction [Cumulative step] [Cumulative step'] (hx : Computing names fresh step h₁ x)
    (hy : Computing names fresh step' h₂ y) :
    Computing names fresh (do
        step
        pass
        let skip ← Build.emitJump .jumpIfFalse line
        Build.emitAt .pop line
        step'
        Build.patchJump skip)
      (max h₁ h₂) (do
        let v ← x
        if v.isFalsey then pure v else y) := by
  intro b b' u hb hclean
  obtain ⟨_, b₁, hstep, hclean⟩ := hclean.bind
  obtain ⟨c₁, hdrafts₁, hx₁⟩ := hx hb hstep
  obtain ⟨_, _, hpass, hclean⟩ := hclean.bind
  obtain rfl := hpass.of_pass
  obtain ⟨skip, _, hjump, hclean⟩ := hclean.bind
  obtain ⟨rfl, rfl⟩ := hjump.of_emitJump
  obtain ⟨_, _, hpop, hclean⟩ := hclean.bind
  obtain rfl := hpop.of_emitAt
  have hgo := hdrafts₁.take.drafted.emitJump .jumpIfFalse line
  have hdrop := hgo.trans (hgo.drafted.emit .pop line)
  obtain ⟨_, b₂, hstep', hclean⟩ := hclean.bind
  obtain ⟨c₂, hdrafts₂, hy₂⟩ := hy hdrop.drafted hstep'
  obtain ⟨chunk, hpatch, rfl⟩ := hclean.of_patchJump
  have hall := hdrafts₁.take.trans (hdrop.trans hdrafts₂)
  obtain ⟨hlimit, hpatched, hconstants⟩ :=
    Drafts.patchJump c₁ hall hpatch hdrafts₁.take.code.size_eq
  refine ⟨_, hpatched, ?_⟩
  rw [hconstants]
  exact (hx₁.mono (hdrop.trans hdrafts₂).constants).conjunction hy₂ hlimit

/-- `||` -/
theorem disjunction [Cumulative step] [Cumulative step'] (hx : Computing names fresh step h₁ x)
    (hy : Computing names fresh step' h₂ y) :
    Computing names fresh (do
        step
        pass
        let go ← Build.emitJump .jumpIfFalse line
        let skip ← Build.emitJump .jump line
        Build.patchJump go
        Build.emitAt .pop line
        step'
        Build.patchJump skip)
      (max h₁ h₂) (do
        let v ← x
        if v.isFalsey then y else pure v) := by
  intro b b' u hb hclean
  obtain ⟨_, b₁, hstep, hclean⟩ := hclean.bind
  obtain ⟨c₁, hdrafts₁, hx₁⟩ := hx hb hstep
  obtain ⟨_, _, hpass, hclean⟩ := hclean.bind
  obtain rfl := hpass.of_pass
  obtain ⟨go, _, hjump, hclean⟩ := hclean.bind
  obtain ⟨rfl, rfl⟩ := hjump.of_emitJump
  obtain ⟨skip, _, hskip, hclean⟩ := hclean.bind
  obtain ⟨rfl, rfl⟩ := hskip.of_emitJump
  obtain ⟨_, _, hland, hclean⟩ := hclean.bind
  obtain ⟨chunk, hpatch, rfl⟩ := hland.of_patchJump
  have hgo := hdrafts₁.take.drafted.emitJump .jumpIfFalse line
  have hskip' := hgo.trans (hgo.drafted.emitJump .jump line)
  -- The first jump is patched at once, over the second one.
  obtain ⟨-, hlanded, hconstants⟩ := Drafts.patchJump [] hskip' hpatch rfl
  obtain ⟨_, _, hpop, hclean⟩ := hclean.bind
  obtain rfl := hpop.of_emitAt
  have hdrop := hlanded.trans (hlanded.drafted.emit .pop line)
  obtain ⟨_, b₂, hstep', hclean⟩ := hclean.bind
  obtain ⟨c₂, hdrafts₂, hy₂⟩ := hy hdrop.drafted hstep'
  obtain ⟨chunk', hpatch', rfl⟩ := hclean.of_patchJump
  have hall : Drafts names fresh b b₂ ((c₁ ++ [⟨.jumpIfFalse, distanceBytes 3, line⟩]) ++
      ⟨.jump, [0xFF, 0xFF], line⟩ :: ⟨.pop, [], line⟩ :: c₂) := by
    rw [List.append_assoc]
    exact hdrafts₁.take.trans (hdrop.trans hdrafts₂)
  have hoffset := (hdrafts₁.take.trans hgo).code.size_eq
  rw [Code.extent_append] at hoffset
  -- The second one is patched behind the second operand.
  obtain ⟨hlimit, hpatched, hconstants'⟩ := Drafts.patchJump _ hall hpatch'
    (by rw [Code.extent_append]; exact hoffset)
  refine ⟨_, hpatched, ?_⟩
  rw [hconstants', List.append_assoc]
  exact (hx₁.mono (hdrop.trans hdrafts₂).constants).disjunction hy₂ hlimit

/-- An assignment: the variable is looked up first, and assigned at the end. -/
theorem assign [Cumulative step] (hname : token.lexeme ≠ "") (hx : Computing names fresh step h x) :
    Computing names fresh (do
        pass
        let access ← Build.resolve token
        pass
        step
        Build.emitWithAt access.setOp access.index token.line)
      h (do
        let v ← x
        Eval.assign token.lexeme v
        return v) := by
  intro b b' u hb hclean
  obtain ⟨_, _, hpass, hclean⟩ := hclean.bind
  obtain rfl := hpass.of_pass
  obtain ⟨access, b₁, hresolve, hclean⟩ := hclean.bind
  obtain ⟨hdrafts₁, hlocates⟩ := hb.take.drafted.resolve hname hresolve
  obtain ⟨_, _, hpass, hclean⟩ := hclean.bind
  obtain rfl := hpass.of_pass
  obtain ⟨_, b₂, hstep, hclean⟩ := hclean.bind
  obtain ⟨code, hdrafts₂, hcomputes⟩ := hx hdrafts₁.take.drafted hstep
  obtain rfl := hclean.of_emitWithAt
  have hemit := hdrafts₂.drafted.emitWith access.setOp access.index token.line
  refine ⟨_, hb.take.trans (hdrafts₁.take.trans (hdrafts₂.trans hemit)), ?_⟩
  exact (hlocates.mono hdrafts₂.constants).assign hcomputes

end Build.Computing

/-! ## Expressions -/

/-- The instruction of an operator in front of an operand does what the operator says. -/
theorem TokenKind.execute_signOp {kind : TokenKind} {f : Value → Except ValueError Value}
    (h : kind.unary? = some f) :
    Exec.execute (Build.signOp kind) = Exec.proceed (Exec.applyUnary f) ∧
      ∀ v w, f v = .ok w → w.isScalar = true := by
  unfold unary? at h
  split at h
  · obtain rfl := Option.some.inj h
    exact ⟨rfl, fun _ _ => Value.isScalar_of_negate⟩
  · obtain rfl := Option.some.inj h
    exact ⟨rfl, fun _ _ hv => Except.ok.inj hv ▸ rfl⟩
  · cases h

/-- An operator between two operands has an instruction of its own, or denies one that has. -/
theorem TokenKind.execute_signOps {kind : TokenKind} {f : Value → Value → Except ValueError Value}
    (h : kind.binary? = some f) :
    ∃ op g, Exec.execute op = Exec.proceed (Exec.applyBinary g) ∧
      (∀ v w u, g v w = .ok u → u.isScalar = true) ∧
      (Build.signOps kind = [op] ∧ f = g ∨
        Build.signOps kind = [op, .not] ∧ f = fun v w => (g v w).map Value.not) := by
  unfold binary? at h
  split at h
  · exact ⟨.add, f, Option.some.inj h ▸ rfl,
      Option.some.inj h ▸ fun _ _ _ => Value.isScalar_of_add, .inl ⟨rfl, rfl⟩⟩
  · exact ⟨.subtract, f, Option.some.inj h ▸ rfl,
      Option.some.inj h ▸ fun _ _ _ => Value.isScalar_of_arithmetic, .inl ⟨rfl, rfl⟩⟩
  · exact ⟨.multiply, f, Option.some.inj h ▸ rfl,
      Option.some.inj h ▸ fun _ _ _ => Value.isScalar_of_arithmetic, .inl ⟨rfl, rfl⟩⟩
  · exact ⟨.divide, f, Option.some.inj h ▸ rfl,
      Option.some.inj h ▸ fun _ _ _ => Value.isScalar_of_divide, .inl ⟨rfl, rfl⟩⟩
  · exact ⟨.equal, f, Option.some.inj h ▸ rfl,
      Option.some.inj h ▸ fun _ _ _ hv => Except.ok.inj hv ▸ rfl, .inl ⟨rfl, rfl⟩⟩
  · exact ⟨.notEqual, f, Option.some.inj h ▸ rfl,
      Option.some.inj h ▸ fun _ _ _ hv => Except.ok.inj hv ▸ rfl, .inl ⟨rfl, rfl⟩⟩
  · exact ⟨.less, f, Option.some.inj h ▸ rfl,
      Option.some.inj h ▸ fun _ _ _ => Value.isScalar_of_compare, .inl ⟨rfl, rfl⟩⟩
  · exact ⟨.greater, f, Option.some.inj h ▸ rfl,
      Option.some.inj h ▸ fun _ _ _ => Value.isScalar_of_compare, .inl ⟨rfl, rfl⟩⟩
  · exact ⟨.greater, Value.greater, rfl, fun _ _ _ => Value.isScalar_of_compare,
      .inr ⟨rfl, (Option.some.inj h).symm⟩⟩
  · exact ⟨.less, Value.less, rfl, fun _ _ _ => Value.isScalar_of_compare,
      .inr ⟨rfl, (Option.some.inj h).symm⟩⟩
  · cases h

/-- An expression whose names and numbers are written as a source can have them. -/
def Expr.Readable : Expr → Prop
  | .literal token => token.kind = .number → Numeral token.lexeme.toList
  | .ident token => token.lexeme ≠ ""
  | .grouping e | .unary _ e => e.Readable
  | .binary left _ right | .conjunction left _ right | .disjunction left _ right =>
    left.Readable ∧ right.Readable
  | .assign name value => name.lexeme ≠ "" ∧ value.Readable
  | _ => True

open Build (Computing)

/-- **The code of an expression computes its value.** -/
theorem Expr.computing {names : List (List String)} {fresh : List String} (e : Expr)
    {x : Eval Value}
    (hx : e.eval? = some x) (he : e.Readable) : Computing names fresh e.build e.height x := by
  cases e with
  | literal token =>
    unfold Expr.eval? at hx
    unfold Expr.Readable at he
    -- Each case finds the meaning of the operands inside `hx` and joins their code by the lemma on
    -- the operator.
    unfold Expr.build Expr.height
    obtain ⟨v, hv, rfl⟩ := Option.map_eq_some_iff.1 hx
    exact (Computing.literal hv he).passing
  | ident token =>
    unfold Expr.eval? at hx
    unfold Expr.Readable at he
    unfold Expr.build Expr.height
    obtain rfl := Option.some.inj hx
    exact (Computing.readVariable he).passing
  | grouping inner =>
    unfold Expr.eval? at hx
    unfold Expr.Readable at he
    unfold Expr.build Expr.height
    exact (Computing.passed (inner.computing hx he)).passing
  | unary sign operand =>
    unfold Expr.eval? at hx
    unfold Expr.Readable at he
    unfold Expr.build Expr.height
    obtain ⟨f, hf, hx⟩ := Option.bind_eq_some_iff.1 hx
    obtain ⟨y, hy, hx⟩ := Option.bind_eq_some_iff.1 hx
    obtain rfl := Option.some.inj hx
    obtain ⟨hop, hscalar⟩ := TokenKind.execute_signOp hf
    exact ((operand.computing hy he).unary hop hscalar).passing
  | binary left sign right =>
    unfold Expr.eval? at hx
    unfold Expr.Readable at he
    unfold Expr.build Expr.height
    obtain ⟨f, hf, hx⟩ := Option.bind_eq_some_iff.1 hx
    obtain ⟨y, hy, hx⟩ := Option.bind_eq_some_iff.1 hx
    obtain ⟨z, hz, hx⟩ := Option.bind_eq_some_iff.1 hx
    obtain rfl := Option.some.inj hx
    obtain ⟨op, g, hop, hscalar, ⟨hops, rfl⟩ | ⟨hops, rfl⟩⟩ := TokenKind.execute_signOps hf
    · rw [hops]
      exact (left.computing hy he.1).binary (right.computing hz he.2) hop hscalar
    · rw [hops]
      exact (left.computing hy he.1).binaryNot (right.computing hz he.2) hop hscalar
  -- The comparisons with two instructions compute the opposite first and negate it.
  | conjunction left sign right =>
    unfold Expr.eval? at hx
    unfold Expr.Readable at he
    unfold Expr.build Expr.height
    obtain ⟨y, hy, hx⟩ := Option.bind_eq_some_iff.1 hx
    obtain ⟨z, hz, hx⟩ := Option.bind_eq_some_iff.1 hx
    obtain rfl := Option.some.inj hx
    exact (left.computing hy he.1).conjunction (right.computing hz he.2)
  | disjunction left sign right =>
    unfold Expr.eval? at hx
    unfold Expr.Readable at he
    unfold Expr.build Expr.height
    obtain ⟨y, hy, hx⟩ := Option.bind_eq_some_iff.1 hx
    obtain ⟨z, hz, hx⟩ := Option.bind_eq_some_iff.1 hx
    obtain rfl := Option.some.inj hx
    exact (left.computing hy he.1).disjunction (right.computing hz he.2)
  | assign name value =>
    unfold Expr.eval? at hx
    unfold Expr.Readable at he
    unfold Expr.build Expr.height
    obtain ⟨y, hy, hx⟩ := Option.bind_eq_some_iff.1 hx
    obtain rfl := Option.some.inj hx
    exact (value.computing hy he.2).assign he.1
  | this _ | inherited _ _ | inheritedCall _ _ _ | array _ _ | call _ _ _ | subscript _ _ _
  | property _ _ | methodCall _ _ _ | setProperty _ _ _ =>
    unfold Expr.eval? at hx
    cases hx

-- The other forms are those of calls, arrays, properties and classes, which have no meaning here.
/-! ## Steps that build statements -/

/-- A step appends code that performs a statement. -/
def Build.Performing (display : Value → String) (names names' : List (List String))
    (step : Build Unit) (height : Nat) (act : Nat → Eval Unit) : Prop :=
  ∀ ⦃b b' : Builder⦄ ⦃u : Unit⦄, Drafted names [] b → Clean step b u b' →
    ∃ code, Drafts names' [] b b' code ∧
      Performs b'.chunk.constants.toList display names names' code height act

/-! ### New variables -/

/-- The variables once one more is declared: in the innermost block, or among the global ones. -/
def withName (name : String) : List (List String) → List (List String)
  | [] => []
  | scope :: rest => (name :: scope) :: rest

/-- A new variable has its name: a local without a value, or a global one whose name is a
constant. -/
inductive Announced (name : String) (b : Builder) :
    List (List String) → List String → Option UInt8 → Builder → Prop
  | slot {scope : List String} {names : List (List String)} {b₁ : Builder}
      (h : Drafts (scope :: names) [name] b b₁ []) :
        Announced name b (scope :: names) [name] none b₁
  | global {i : UInt8} {b₁ : Builder} (h : Drafts [] [] b b₁ [])
      (hi : b₁.chunk.constants.toList[i.toNat]? = some (.string name)) :
      Announced name b [] [] (some i) b₁

section

variable {names : List (List String)} {fresh : List String} {b b₁ b' : Builder} {x : String}
  {name : Token} {name? : Option UInt8}

/-- A token that is skipped leaves a new variable announced. -/
theorem Announced.take (h : Announced x b names fresh name? b₁) :
    Announced x b names fresh name? b₁.take := by
  cases h with
  | slot h => exact .slot h.take
  | global h hi => exact .global h.take hi

/-- A builder that has announced a variable has appended nothing. -/
theorem Announced.drafts (h : Announced x b names fresh name? b₁) :
    Drafts names fresh b b₁ [] := by
  cases h with
  | slot h => exact h
  | global h hi => exact h

/-- The name of a new variable announces it. -/
theorem Drafted.announced (h : Drafted names [] b)
    (hclean : Clean (Build.newName name) b name? b') :
    ∃ fresh, Announced name.lexeme b names fresh name? b' := by
  unfold Build.newName at hclean
  obtain ⟨_, _, hpass, hclean⟩ := hclean.bind
  obtain rfl := hpass.of_pass
  obtain ⟨_, b₁, hdeclare, hclean⟩ := hclean.bind
  have hdepth : b.take.context.depth = names.length := h.depth
  replace hclean := hclean.bind_get
  rcases hdeclare.of_declareVariable with ⟨hzero, rfl⟩ | ⟨hpos, -, hroom, rfl⟩
  · obtain rfl := List.length_eq_zero_iff.1 (hdepth.symm.trans hzero)
    rw [if_neg (by rw [hzero]; exact Nat.lt_irrefl 0)] at hclean
    obtain ⟨index, hconstant, rfl⟩ := hclean.map
    obtain ⟨chunk, hadd, rfl⟩ := hconstant.of_nameConstant
    obtain ⟨hdrafts, hindex⟩ := h.take.drafted.addConstant (v := .string name.lexeme) trivial hadd
    exact ⟨[], .global (h.take.trans hdrafts) hindex⟩
  · cases names with
    | nil => exact absurd hdepth hpos
    | cons scope rest =>
      have hinner : (b.take.withLocals (⟨name.lexeme, b.take.context.depth, false, false⟩ ::
          b.take.context.locals)).context.depth > 0 := Nat.pos_of_ne_zero hpos
      rw [if_pos hinner] at hclean
      obtain ⟨rfl, rfl⟩ := hclean.of_pure
      refine ⟨[name.lexeme], .slot ⟨{ h.take.drafted with locals := ?_, room := hroom }, .refl _,
        List.prefix_refl _⟩⟩
      show ⟨name.lexeme, b.take.context.depth, false, false⟩ :: b.context.locals = _
      rw [hdepth, h.locals]
      rfl

/-- A fresh variable gets its value. -/
theorem Drafted.markInitialized {scope : List String} {u : Unit}
    (h : Drafted (scope :: names) [x] b) (hclean : Clean Build.markInitialized b u b') :
    Drafts ((x :: scope) :: names) [] b b' [] := by
  have hlocals : b.context.locals =
    ⟨x, names.length + 1, false, false⟩ :: localsOf (scope :: names) :=
    h.locals
  have hdepth : b.context.depth ≠ 0 := by
    rw [h.depth]
    exact Nat.succ_ne_zero _
  obtain rfl := hclean.of_markInitialized_cons hdepth hlocals
  have hroom := h.room
  rw [hlocals] at hroom
  exact ⟨{ h with locals := rfl, room := hroom }, .refl _, List.prefix_refl _⟩

/-- **A new variable is declared** with the value that is computed for it. -/
theorem Announced.define {step : Build Unit} {u : Unit} {h : Nat} {v : Eval Value}
    {display : Value → String} (hnew : Announced x b names fresh name? b₁)
    (hstep : Build.Computing names fresh step h v)
    (hclean : Clean (do step; Build.pass; Build.defineVariable name?) b₁ u b') :
    ∃ code, Drafts (withName x names) [] b b' code ∧
      Performs b'.chunk.constants.toList display names (withName x names) code h
        (fun _ => do Eval.declare x (← v)) := by
  obtain ⟨_, b₂, hvalue, hclean⟩ := hclean.bind
  obtain ⟨code, hdrafts, hcomputes⟩ := hstep hnew.drafts.drafted hvalue
  obtain ⟨_, _, hpass, hclean⟩ := hclean.bind
  obtain rfl := hpass.of_pass
  have hall := hnew.drafts.trans hdrafts.take
  cases hnew with
  | slot =>
    have hmarked := hdrafts.take.drafted.markInitialized hclean
    have hwhole := hall.trans hmarked
    rw [List.append_nil] at hwhole
    exact ⟨code, hwhole, .declareLocal (hcomputes.mono hmarked.constants)⟩
  | @global i _ hnew hi =>
    unfold Build.defineVariable at hclean
    obtain ⟨line, _, hline, hclean⟩ := hclean.bind
    obtain ⟨-, rfl⟩ := hline.of_previousLine
    obtain rfl := hclean.of_emitWithAt
    have hemit := hdrafts.take.drafted.emitWith .defineGlobal i line
    exact ⟨_, hall.trans hemit,
      .declareGlobal hcomputes (getElem?_of_isPrefix hdrafts.constants hi)⟩

end

namespace Build.Performing

variable {display : Value → String} {names names₁ names₂ : List (List String)} {scope : List String}
  {step step' : Build Unit} {h h' h₁ h₂ line : Nat} {x : Eval Value} {act act' : Nat → Eval Unit}

/-- A token that is skipped in front of a step performs nothing. -/
theorem passing [Cumulative step] (hact : Performing display names names₁ step h act) :
    Performing display names names₁ (do pass; step) h act := by
  intro b b' u hb hclean
  obtain ⟨_, _, hpass, hclean⟩ := hclean.bind
  obtain rfl := hpass.of_pass
  obtain ⟨code, hdrafts, hperforms⟩ := hact hb.take.drafted hclean
  exact ⟨code, hb.take.trans hdrafts, hperforms⟩

/-! ### Simple statements -/

/-- A `print` performs the writing of its operand. -/
theorem print [Cumulative step] (hx : Computing names [] step h x) :
    Performing display names names (do step; pass; Build.emitAt .print line) h
      (fun _ => do Eval.writeLine (display (← x))) := by
  intro b b' u hb hclean
  obtain ⟨_, b₁, hstep, hclean⟩ := hclean.bind
  obtain ⟨code, hdrafts, hcomputes⟩ := hx hb hstep
  obtain ⟨_, _, hpass, hclean⟩ := hclean.bind
  obtain rfl := hpass.of_pass
  obtain rfl := hclean.of_emitAt
  exact ⟨_, hdrafts.take.trans (hdrafts.take.drafted.emit .print line), .print hcomputes⟩

/-- An expression that is dropped performs what computing it does. -/
theorem drop [Cumulative step] (hx : Computing names [] step h x) :
    Performing display names names (do step; pass; Build.emit .pop) h (fun _ => do let _ ← x) := by
  intro b b' u hb hclean
  obtain ⟨_, b₁, hstep, hclean⟩ := hclean.bind
  obtain ⟨code, hdrafts, hcomputes⟩ := hx hb hstep
  obtain ⟨_, _, hpass, hclean⟩ := hclean.bind
  obtain rfl := hpass.of_pass
  obtain rfl := hclean.of_emit
  exact ⟨_, hdrafts.take.trans (hdrafts.take.drafted.emit .pop _), .drop hcomputes⟩

/-- The instruction for `nil` computes it. -/
theorem pushNil {fresh : List String} :
    Computing names fresh (Build.emit .pushNil) 1 (pure .nil) := by
  intro b b' u hb hclean
  unfold Build.emit at hclean
  obtain ⟨line, _, hline, hclean⟩ := hclean.bind
  obtain ⟨-, rfl⟩ := hline.of_previousLine
  exact Computing.emitAt rfl rfl hb hclean

/-- A declaration without a value declares a variable that is `nil`. -/
theorem var {name : Token} :
    Performing display names (withName name.lexeme names) (do
        let name? ← newName name
        Build.emit .pushNil
        pass
        defineVariable name?)
      1 (fun _ => Eval.declare name.lexeme .nil) := by
  intro b b' u hb hclean
  obtain ⟨name?, b₁, hname, hclean⟩ := hclean.bind
  obtain ⟨fresh, hnew⟩ := hb.announced hname
  exact hnew.define pushNil hclean

/-- A declaration with a value declares a variable that has it. -/
theorem varWith [Cumulative step] {name : Token} (hx : ∀ fresh, Computing names fresh step h x) :
    Performing display names (withName name.lexeme names) (do
        let name? ← newName name
        pass
        step
        pass
        defineVariable name?)
      h (fun _ => do Eval.declare name.lexeme (← x)) := by
  intro b b' u hb hclean
  obtain ⟨name?, b₁, hname, hclean⟩ := hclean.bind
  obtain ⟨fresh, hnew⟩ := hb.announced hname
  obtain ⟨_, _, hpass, hclean⟩ := hclean.bind
  obtain rfl := hpass.of_pass
  exact hnew.take.define (hx fresh) hclean

theorem nothing : Performing display names names (pure ()) 0 fun _ => pure () := by
  intro b b' u hb hclean
  obtain ⟨-, rfl⟩ := hclean.of_pure
  exact ⟨[], hb.refl, .nil⟩

/-- Two steps one behind the other perform one after the other. -/
theorem append [Cumulative step'] (hact : Performing display names names₁ step h₁ act)
    (hact' : Performing display names₁ names₂ step' h₂ act') (hle : h₁ ≤ h)
    (hle' : slotCount names₁ + h₂ ≤ slotCount names + h) :
    Performing display names names₂ (do step; step') h (fun n => do act n; act' n) := by
  intro b b' u hb hclean
  obtain ⟨_, b₁, hstep, hclean⟩ := hclean.bind
  obtain ⟨c₁, hdrafts₁, hperforms₁⟩ := hact hb hstep
  obtain ⟨c₂, hdrafts₂, hperforms₂⟩ := hact' hdrafts₁.drafted hclean
  exact ⟨c₁ ++ c₂, hdrafts₁.trans hdrafts₂,
    (hperforms₁.mono hdrafts₂.constants).append hperforms₂ hle hle'⟩

/-! ### Blocks -/

/-- Locals that are not captured are dropped one by one. -/
theorem drafts_drops {b b' : Builder} {u : Unit} {locals : List Local} (hb : Drafted names [] b)
    (hlocals : ∀ l ∈ locals, l.captured = false)
    (hclean : Clean (locals.forM fun l => Build.emitAt (dropOp l) line) b u b') :
    Drafts names [] b b' (Performs.drops locals.length line) := by
  induction locals generalizing b with
  | nil =>
    obtain rfl := hclean.forM_nil
    exact hb.refl
  | cons l rest ih =>
    obtain ⟨_, b₁, hemit, hclean⟩ := hclean.forM_cons
    obtain rfl := hemit.of_emitAt
    have hop : dropOp l = .pop := by
      rw [dropOp, hlocals l List.mem_cons_self]
      rfl
    have hfirst := hb.emit (dropOp l) line
    have hrest := ih hfirst.drafted (fun l' hl' => hlocals l' (List.mem_cons_of_mem l hl')) hclean
    rw [hop] at hfirst hrest
    exact hfirst.trans hrest

/-- A block. -/
theorem enclosed [Cumulative step]
    (hact : Performing display ([] :: names) (scope :: names) step h act) :
    Performing display names names (Build.enclosed step) h fun n => Eval.inBlock (act n) := by
  intro b b' u hb hclean
  unfold Build.enclosed at hclean
  obtain ⟨_, _, hbegin, hclean⟩ := hclean.bind
  obtain rfl := hbegin.of_beginScope
  have hentered : Drafted ([] :: names) [] (b.withDepth (b.context.depth + 1)) :=
    { hb with depth := congrArg (· + 1) hb.depth }
  obtain ⟨_, b₁, hbody, hclean⟩ := hclean.bind
  obtain ⟨code, hdrafts, hperforms⟩ := hact hentered hbody
  obtain ⟨_, _, hpass, hclean⟩ := hclean.bind
  obtain rfl := hpass.of_pass
  have hlast := hdrafts.take.drafted
  have hlocals : b₁.take.context.locals =
      scope.map (⟨·, names.length + 1, true, false⟩) ++ localsOf names := hlast.locals
  have hends := hclean.of_endScope hlocals hlast.depth
    (fun l hl => by
      obtain ⟨_, -, rfl⟩ := List.mem_map.1 hl
      rfl)
    fun l hl => (mem_localsOf hl).2.2
  have hleft : Drafted names [] ((b₁.take.withDepth names.length).withLocals (localsOf names)) :=
    { hlast with
      depth := rfl
      locals := rfl
      room := by
        have hroom := hlast.room
        rw [hlast.locals, localsOf, List.length_append, List.length_append] at hroom
        show (localsOf names).length ≤ _
        omega }
  have hdrops := drafts_drops hleft (fun l hl => by
    obtain ⟨_, -, rfl⟩ := List.mem_map.1 hl
    rfl) hends
  rw [List.length_map] at hdrops
  exact ⟨_, ⟨hdrops.drafted, hdrafts.code.trans hdrops.code,
    hdrafts.constants.trans hdrops.constants⟩,
    (hperforms.mono hdrops.constants).block⟩

/-! ### Branches and loops -/

section

variable {b b₁ b₂ b₃ : Builder} {chunk chunk' : Chunk} {a a' c : Code}

/-- The builder at the place where the jump in front of some code lands, behind a jump at the end of
the code. -/
theorem drafts_landed (hb : Drafted names [] b)
    (h₁ : Drafts names [] (b.emitJump .jumpIfFalse line) b₁ a)
    (hpatch : (b₁.emitJump .jump line).chunk.patchJump b.chunk.size = .ok chunk) :
    a.extent + Chunk.jumpLength ≤ Chunk.distanceLimit ∧
      Drafts names [] b ((b₁.emitJump .jump line).withChunk chunk)
        (⟨.jumpIfFalse, distanceBytes (a.extent + Chunk.jumpLength), line⟩ ::
          (a ++ [⟨.jump, [0xFF, 0xFF], line⟩])) ∧
      chunk.constants = b₁.chunk.constants := by
  have hgo := (hb.emitJump .jumpIfFalse line).trans h₁
  have hskip := hgo.trans (h₁.drafted.emitJump .jump line)
  rw [List.append_assoc, List.singleton_append] at hskip
  have hextent : (a ++ [⟨.jump, [0xFF, 0xFF], line⟩] : Code).extent =
    a.extent + Chunk.jumpLength := by
    rw [Code.extent_append]
    rfl
  rw [← hextent]
  exact Drafts.patchJump [] hskip hpatch rfl

/-- Two pieces of code, of which the second is for a value that counts as false. -/
theorem drafts_choice (hb : Drafted names [] b)
    (h₁ : Drafts names [] (b.emitJump .jumpIfFalse line) b₁ a)
    (hpatch : (b₁.emitJump .jump line).chunk.patchJump b.chunk.size = .ok chunk)
    (h₂ : Drafts names [] ((b₁.emitJump .jump line).withChunk chunk) b₂ a')
    (hpatch' : b₂.chunk.patchJump b₁.chunk.size = .ok chunk') :
    a'.extent ≤ Chunk.distanceLimit ∧
      Drafts names [] b (b₂.withChunk chunk') (Performs.choice a a' line) ∧
      (b₂.withChunk chunk').chunk.constants = b₂.chunk.constants := by
  obtain ⟨-, hlanded, -⟩ := drafts_landed hb h₁ hpatch
  have hall := hlanded.trans h₂
  rw [List.cons_append, List.append_assoc, List.singleton_append] at hall
  have hsize := ((hb.emitJump .jumpIfFalse line).trans h₁).code.size_eq
  exact Drafts.patchJump
    (⟨.jumpIfFalse, distanceBytes (a.extent + Chunk.jumpLength), line⟩ :: a) hall hpatch' hsize

/-- A piece of code that is repeated until the condition in front of it counts as false. -/
theorem drafts_repetition (h₁ : Drafts names [] b b₁ c)
    (h₂ : Drafts names [] (b₁.emitJump .jumpIfFalse line) b₂ a)
    (hloop : b₂.chunk.addLoop b.chunk.size line = .ok chunk)
    (hpatch : (b₂.withChunk chunk).chunk.patchJump b₁.chunk.size = .ok chunk') :
    a.extent + Chunk.jumpLength ≤ Chunk.distanceLimit ∧
      c.extent + Chunk.jumpLength + a.extent + Chunk.jumpLength ≤ Chunk.distanceLimit ∧
      Drafts names [] b (((b₂.withChunk chunk).withChunk chunk').emit .pop line)
        (Performs.repetition c a line) ∧
      chunk'.constants = b₂.chunk.constants := by
  have hbody := h₁.trans ((h₁.drafted.emitJump .jumpIfFalse line).trans h₂)
  obtain ⟨-, hback, happends, hconstants⟩ := Chunk.Appends.addLoop hloop
  have hsize : b₂.chunk.size + Chunk.jumpLength - b.chunk.size =
      c.extent + Chunk.jumpLength + a.extent + Chunk.jumpLength := by
    rw [hbody.code.size_eq]
    simp only [Code.extent_append, Code.extent_cons, Code.extent_nil, Instruction.size,
      List.length_cons, List.length_nil, Chunk.jumpLength]
    omega
  rw [hsize] at hback happends
  have hagain := hbody.trans (h₂.drafted.withChunk happends hconstants)
  rw [List.append_assoc, List.append_assoc, List.singleton_append] at hagain
  obtain ⟨hforward, hpatched, hconstants'⟩ := Drafts.patchJump c hagain hpatch h₁.code.size_eq
  have hextent : (a ++ [⟨.loop, distanceBytes
      (c.extent + Chunk.jumpLength + a.extent + Chunk.jumpLength), line⟩] : Code).extent =
      a.extent + Chunk.jumpLength := by
    rw [Code.extent_append]
    rfl
  rw [hextent] at hforward hpatched
  have hall := hpatched.trans (hpatched.drafted.emit .pop line)
  rw [List.append_assoc, List.cons_append, List.append_assoc, List.singleton_append] at hall
  exact ⟨hforward, hback, hall, hconstants'.trans hconstants⟩

end

-- The longest of these steps is a sequence of a dozen others.
set_option synthInstance.maxSize 2048

/-- A conditional statement. -/
theorem branch {condition body alternative : Build Unit} [Cumulative condition] [Cumulative body]
    [Cumulative alternative] (hx : Computing names [] condition h₁ x)
    (hact : Performing display names names (Build.enclosed body) h act)
    (hact' : Performing display names names alternative h' act') :
    Performing display names names (Build.branch condition body alternative) (max (max h₁ h) h')
      (fun n => do if (← x).isFalsey then act' n else act n) := by
  intro b b' u hb hclean
  unfold Build.branch at hclean
  obtain ⟨_, b₁, hcondition, hclean⟩ := hclean.bind
  obtain ⟨c, hdrafts₁, hcomputes⟩ := hx hb hcondition
  obtain ⟨line, _, hline, hclean⟩ := hclean.bind
  obtain ⟨-, rfl⟩ := hline.of_previousLine
  obtain ⟨_, _, hpass, hclean⟩ := hclean.bind
  obtain rfl := hpass.of_pass
  have hb₁ := hdrafts₁.take.drafted
  obtain ⟨toElse, _, hjump, hclean⟩ := hclean.bind
  obtain ⟨rfl, rfl⟩ := hjump.of_emitJump
  obtain ⟨_, _, hpop, hclean⟩ := hclean.bind
  obtain rfl := hpop.of_emitAt
  have hdrop := (hb₁.emitJump .jumpIfFalse line).drafted.emit .pop line
  obtain ⟨_, b₂, hbody, hclean⟩ := hclean.bind
  obtain ⟨a, hdrafts₂, hperforms⟩ := hact hdrop.drafted hbody
  obtain ⟨toEnd, _, hskip, hclean⟩ := hclean.bind
  obtain ⟨rfl, rfl⟩ := hskip.of_emitJump
  obtain ⟨_, _, hland, hclean⟩ := hclean.bind
  unfold landAndDrop at hland
  obtain ⟨_, _, hlands, hpop'⟩ := hland.bind
  obtain ⟨chunk, hpatch, rfl⟩ := hlands.of_patchJump
  obtain rfl := hpop'.of_emitAt
  -- The first jump lands behind the body, where the alternative begins.
  obtain ⟨hlimit, hlanded, hconstants⟩ := drafts_landed hb₁ (hdrop.trans hdrafts₂) hpatch
  have hdrop' := hlanded.drafted.emit .pop line
  obtain ⟨_, b₃, halternative, hclean⟩ := hclean.bind
  obtain ⟨a', hdrafts₃, hperforms'⟩ := hact' hdrop'.drafted halternative
  obtain ⟨chunk', hpatch', rfl⟩ := hclean.of_patchJump
  obtain ⟨hlimit', hchoice, hconstants'⟩ := drafts_choice hb₁ (hdrop.trans hdrafts₂) hpatch
    (hdrop'.trans hdrafts₃) hpatch'
  have hthen : b₂.chunk.constants.toList <+: b₃.chunk.constants.toList := by
    rw [← hconstants]
    exact (hdrop'.trans hdrafts₃).constants
  refine ⟨_, hdrafts₁.take.trans hchoice, ?_⟩
  rw [hconstants']
  exact .branch (hcomputes.mono ((hdrop.trans hdrafts₂).constants.trans hthen))
    (hperforms.mono hthen)
    hperforms' hlimit hlimit'

/-- A loop. -/
theorem cycle {condition body : Build Unit} [Cumulative condition] [Cumulative body]
    (hx : Computing names [] condition h₁ x)
    (hact : Performing display names names (Build.enclosed body) h act) :
    Performing display names names (Build.cycle condition body) (max h₁ h) (Eval.cycle x act) := by
  intro b b' u hb hclean
  unfold Build.cycle at hclean
  obtain ⟨start, _, hstart, hclean⟩ := hclean.bind
  obtain ⟨rfl, rfl⟩ := hstart.of_codeSize
  obtain ⟨_, b₁, hcondition, hclean⟩ := hclean.bind
  obtain ⟨c, hdrafts₁, hcomputes⟩ := hx hb hcondition
  obtain ⟨line, _, hline, hclean⟩ := hclean.bind
  obtain ⟨-, rfl⟩ := hline.of_previousLine
  obtain ⟨_, _, hpass, hclean⟩ := hclean.bind
  obtain rfl := hpass.of_pass
  obtain ⟨toEnd, _, hjump, hclean⟩ := hclean.bind
  obtain ⟨rfl, rfl⟩ := hjump.of_emitJump
  obtain ⟨_, _, hpop, hclean⟩ := hclean.bind
  obtain rfl := hpop.of_emitAt
  have hdrop := (hdrafts₁.take.drafted.emitJump .jumpIfFalse line).drafted.emit .pop line
  obtain ⟨_, b₂, hbody, hclean⟩ := hclean.bind
  obtain ⟨a, hdrafts₂, hperforms⟩ := hact hdrop.drafted hbody
  obtain ⟨_, _, hagain, hclean⟩ := hclean.bind
  obtain ⟨chunk, hloop, rfl⟩ := hagain.of_emitLoop
  unfold landAndDrop at hclean
  obtain ⟨_, _, hlands, hpop'⟩ := hclean.bind
  obtain ⟨chunk', hpatch, rfl⟩ := hlands.of_patchJump
  obtain rfl := hpop'.of_emitAt
  obtain ⟨hlimit, hlimit', hall, hconstants⟩ :=
    drafts_repetition hdrafts₁.take (hdrop.trans hdrafts₂) hloop hpatch
  refine ⟨_, hall, ?_⟩
  show Performs chunk'.constants.toList _ _ _ _ _ _
  rw [hconstants]
  exact .loop (hcomputes.mono (hdrop.trans hdrafts₂).constants) hperforms hlimit hlimit'

end Build.Performing

/-! ## Declarations -/

namespace Decl

/-- The variables behind a declaration. -/
def namesAfter (names : List (List String)) (d : Decl) : List (List String) :=
  d.name?.elim names (withName · names)

/-- The variables behind declarations in a row. -/
def namesAfterAll (names : List (List String)) (ds : List Decl) : List (List String) :=
  ds.foldl namesAfter names

/-- Declarations add to the innermost scope only. -/
theorem exists_namesAfterAll (scope : List String) (names : List (List String)) (ds : List Decl) :
    ∃ scope', namesAfterAll (scope :: names) ds = scope' :: names := by
  induction ds generalizing scope with
  | nil => exact ⟨scope, rfl⟩
  | cons d ds ih =>
    have hcons : namesAfterAll (scope :: names) (d :: ds) =
      namesAfterAll (namesAfter (scope :: names) d) ds := rfl
    rw [hcons, namesAfter]
    cases d.name? with
    | none => exact ih scope
    | some name => exact ih (name :: scope)

end Decl

/-- The room that a variable takes: none if it is global. -/
def roomOf : List (List String) → Nat
  | [] => 0
  | _ :: _ => 1

/-- A declaration does not lead in or out of a scope. -/
theorem roomOf_namesAfter (names : List (List String)) (d : Decl) :
    roomOf (d.namesAfter names) = roomOf names := by
  rw [Decl.namesAfter]
  cases d.name? with
  | none => rfl
  | some name => cases names <;> rfl

/-- A declaration takes a slot if it names a local variable. -/
theorem slotCount_namesAfter (names : List (List String)) (d : Decl) :
    slotCount (d.namesAfter names) =
      slotCount names + if d.name?.isSome then roomOf names else 0 := by
  rw [Decl.namesAfter]
  cases d.name? with
  | none => rfl
  | some name =>
    cases names with
    | nil => rfl
    | cons scope rest =>
      show (name :: (scope ++ rest.flatten)).length + 1 = (scope ++ rest.flatten).length + 1 + 1
      rfl

open Build (Performing)

mutual

/-- A declaration whose names and numbers are written as a source can have them. -/
def Decl.Readable : Decl → Prop
  | .var _ (some value) | .print _ value | .expression value => value.Readable
  | .block body => Decl.ReadableAll body
  | .ifThen condition body | .loop condition body => condition.Readable ∧ Decl.ReadableAll body
  | .ifElse condition body alternative =>
    condition.Readable ∧ Decl.ReadableAll body ∧ alternative.name? = none ∧ alternative.Readable
  | _ => True

/-- Declarations in a row. -/
def Decl.ReadableAll : List Decl → Prop
  | [] => True
  | d :: ds => d.Readable ∧ Decl.ReadableAll ds

end

/-- Declarations that are performed in a new scope are performed in a block of their own. -/
theorem Decl.performing_enclosed {display : Value → String} {names : List (List String)}
    {ds : List Decl} {act : Nat → Eval Unit}
    (hall : Performing display ([] :: names) (Decl.namesAfterAll ([] :: names) ds)
      (Decl.buildAll ds)
      (Decl.heightAll 1 ds) act) :
    Performing display names names (Build.enclosed (Decl.buildAll ds)) (Decl.heightAll 1 ds)
      fun n => Eval.inBlock (act n) := by
  obtain ⟨scope, hscope⟩ := Decl.exists_namesAfterAll [] names ds
  rw [hscope] at hall
  exact hall.enclosed

mutual

/-- **The code of a declaration performs it.** -/
theorem Decl.performing {display : Value → String} (names : List (List String)) (d : Decl)
    {act : Nat → Eval Unit} (hact : d.eval? display = some act) (hd : d.Readable) :
    Performing display names (d.namesAfter names) d.build d.height act := by
  -- One case for each rule: what the declaration means is taken apart as `hact` puts it together,
  -- and the lemma on that construct joins what its parts perform.
  cases d with
  | var name initial =>
    cases initial with
    | none =>
      unfold Decl.eval? at hact
      unfold Decl.build Decl.height
      obtain rfl := Option.some.inj hact
      exact Performing.var.passing
    | some value =>
      unfold Decl.eval? at hact
      unfold Decl.Readable at hd
      unfold Decl.build Decl.height
      obtain ⟨x, hx, hact⟩ := Option.bind_eq_some_iff.1 hact
      obtain rfl := Option.some.inj hact
      exact (Performing.varWith fun fresh => value.computing hx hd).passing
  | print keyword value =>
    unfold Decl.eval? at hact
    unfold Decl.Readable at hd
    unfold Decl.build Decl.height
    obtain ⟨x, hx, hact⟩ := Option.bind_eq_some_iff.1 hact
    obtain rfl := Option.some.inj hact
    exact (Performing.print (value.computing hx hd)).passing
  | expression value =>
    unfold Decl.eval? at hact
    unfold Decl.Readable at hd
    unfold Decl.build Decl.height
    obtain ⟨x, hx, hact⟩ := Option.bind_eq_some_iff.1 hact
    obtain rfl := Option.some.inj hact
    exact Performing.drop (value.computing hx hd)
  | block body =>
    unfold Decl.eval? at hact
    unfold Decl.Readable at hd
    unfold Decl.build Decl.height
    obtain ⟨inner, hinner, hact⟩ := Option.bind_eq_some_iff.1 hact
    obtain rfl := Option.some.inj hact
    exact (Decl.performing_enclosed (Decl.performingAll ([] :: names) body hinner hd)).passing
  | ifThen condition body =>
    unfold Decl.eval? at hact
    unfold Decl.Readable at hd
    unfold Decl.build Decl.height
    obtain ⟨x, hx, hact⟩ := Option.bind_eq_some_iff.1 hact
    obtain ⟨inner, hinner, hact⟩ := Option.bind_eq_some_iff.1 hact
    obtain rfl := Option.some.inj hact
    have hbranch := Performing.branch (condition.computing hx hd.1)
      (Decl.performing_enclosed (Decl.performingAll ([] :: names) body hinner hd.2))
        Performing.nothing
    -- Without an alternative the second branch is empty and needs no room.
    rw [Nat.max_zero] at hbranch
    exact hbranch.passing
  | ifElse condition body alternative =>
    unfold Decl.eval? at hact
    unfold Decl.Readable at hd
    unfold Decl.build Decl.height
    obtain ⟨x, hx, hact⟩ := Option.bind_eq_some_iff.1 hact
    obtain ⟨inner, hinner, hact⟩ := Option.bind_eq_some_iff.1 hact
    obtain ⟨other, hother, hact⟩ := Option.bind_eq_some_iff.1 hact
    obtain rfl := Option.some.inj hact
    obtain ⟨hcondition, hbody, hname, halternative⟩ := hd
    -- An alternative declares no name, so what follows it sees the names in front of it.
    have hother' := Decl.performing names alternative hother halternative
    unfold Decl.namesAfter Decl.name?
    rw [hname]
    rw [Decl.namesAfter, hname] at hother'
    have hbody' := Decl.performing_enclosed (Decl.performingAll ([] :: names) body hinner hbody)
    exact (Performing.branch (condition.computing hx hcondition) hbody' hother'.passing).passing
  | loop condition body =>
    unfold Decl.eval? at hact
    unfold Decl.Readable at hd
    unfold Decl.build Decl.height
    obtain ⟨x, hx, hact⟩ := Option.bind_eq_some_iff.1 hact
    obtain ⟨inner, hinner, hact⟩ := Option.bind_eq_some_iff.1 hact
    obtain rfl := Option.some.inj hact
    have hbody := Decl.performing_enclosed (Decl.performingAll ([] :: names) body hinner hd.2)
    exact (Performing.cycle (condition.computing hx hd.1) hbody).passing
  | classDecl _ _ _ | func _ _ _ | leave _ _ =>
    -- A class, a function and a `return` have no meaning of this kind.
    unfold Decl.eval? at hact
    cases hact

/-- Declarations in a row. -/
theorem Decl.performingAll {display : Value → String} (names : List (List String))
    (ds : List Decl) {act : Nat → Eval Unit} (hact : Decl.evalAll? display ds = some act)
    (hds : Decl.ReadableAll ds) :
    Performing display names (Decl.namesAfterAll names ds) (Decl.buildAll ds)
      (Decl.heightAll (roomOf names) ds) act := by
  cases ds with
  | nil =>
    unfold Decl.evalAll? at hact
    unfold Decl.buildAll Decl.heightAll
    obtain rfl := Option.some.inj hact
    exact Performing.nothing
  | cons d ds =>
    unfold Decl.evalAll? at hact
    unfold Decl.ReadableAll at hds
    unfold Decl.buildAll Decl.heightAll
    obtain ⟨first, hfirst, hact⟩ := Option.bind_eq_some_iff.1 hact
    obtain ⟨rest, hrest, hact⟩ := Option.bind_eq_some_iff.1 hact
    obtain rfl := Option.some.inj hact
    have hd := Decl.performing names d hfirst hds.1
    have hds := Decl.performingAll (d.namesAfter names) ds hrest hds.2
    rw [roomOf_namesAfter] at hds
    refine hd.append hds (Nat.le_max_left _ _) ?_
    rw [slotCount_namesAfter]
    omega

end

end ScriptVM
