/-
# Expressions are read as their trees are compiled

A tree can be compiled directly: `Expr.generate` follows the tree, appends the code of each node
behind that of its parts, and looks at no token.  Reading the tokens of the tree comes to the same:
it appends the same code and constants, and then stands behind the tokens.

A step that neither looks at the tokens nor moves among them does the same wherever they stand
(`Blind`).  So reading can be compared with generating part by part: a part that reads tokens, and
otherwise does as a blind step does, `Tracks` that step.

Main statement: `expression_generates`.
-/
import ScriptVM.Proofs.Syntax.Rendering

namespace ScriptVM

open Build

/-! ## Generating code -/

namespace Build

/-- The instructions of an operator between two operands. -/
def binaryOps : TokenKind → List Opcode
  | .plus => [.add]
  | .minus => [.subtract]
  | .asterisk => [.multiply]
  | .slash => [.divide]
  | .equalEqual => [.equal]
  | .bangEqual => [.notEqual]
  | .less => [.less]
  | .greater => [.greater]
  -- There is no instruction for these, so the opposite one is negated.
  | .lessEqual => [.greater, .not]
  | .greaterEqual => [.less, .not]
  | _ => []

/-- The name of a property of the superclass, and the instance; the index of the name. -/
def inheritedStart (keyword name : Token) : Build UInt8 := do
  requireSuperclass keyword
  let index ← nameConstant name
  readVariable ⟨.selfKw, "self", keyword.start, keyword.line⟩
  return index

end Build

mutual

/-- The code of an expression, generated from its tree. -/
def Expr.generate : Expr → Build Unit
  | .literal token => Build.literal token
  | .ident token => readVariable token
  | .this keyword => selfAccess keyword
  | .inherited keyword name => do
    let index ← inheritedStart keyword name
    readSuperclass keyword
    emitWithAt .getSuper index name.line
  | .inheritedCall keyword name arguments => do
    let index ← inheritedStart keyword name
    Expr.generateList .tooManyArguments 0 arguments
    readSuperclass keyword
    emitWithAt .invokeSuper index name.line
    emitByteAt (UInt8.ofNat arguments.length) name.line
  | .grouping inner => inner.generate
  | .array bracket elements => do
    Expr.generateList .tooManyElements 0 elements
    emitWithAt .arrayLiteral (UInt8.ofNat elements.length) bracket.line
  | .unary sign operand => do
    operand.generate
    emitAt (if sign.kind = .minus then .negate else .not) sign.line
  | .binary left sign right => do
    left.generate
    right.generate
    (binaryOps sign.kind).forM fun op => emitAt op sign.line
  | .conjunction left sign right => do
    left.generate
    let skip ← emitJump .jumpIfFalse sign.line
    emitAt .pop sign.line
    right.generate
    patchJump skip
  | .disjunction left sign right => do
    left.generate
    let go ← emitJump .jumpIfFalse sign.line
    let skip ← emitJump .jump sign.line
    patchJump go
    emitAt .pop sign.line
    right.generate
    patchJump skip
  | .call callee paren arguments => do
    callee.generate
    Expr.generateList .tooManyArguments 0 arguments
    emitWithAt .call (UInt8.ofNat arguments.length) paren.line
  | .subscript callee bracket index => do
    callee.generate
    index.generate
    emitWithAt .call 1 bracket.line
  | .property receiver name => do
    receiver.generate
    let index ← nameConstant name
    emitWithAt .getProperty index name.line
  | .methodCall receiver name arguments => do
    receiver.generate
    let index ← nameConstant name
    Expr.generateList .tooManyArguments 0 arguments
    emitWithAt .invoke index name.line
    emitByteAt (UInt8.ofNat arguments.length) name.line
  | .assign name value => do
    let access ← resolve name
    value.generate
    emitWithAt access.setOp access.index name.line
  | .setProperty receiver name value => do
    receiver.generate
    let index ← nameConstant name
    value.generate
    emitWithAt .setProperty index name.line

/-- The code of a list of expressions of which `count` are done. -/
def Expr.generateList (excess : ErrorKind) (count : Nat) : List Expr → Build Unit
  | [] => pure ()
  | e :: es => do
    e.generate
    limit excess count
    Expr.generateList excess (count + 1) es

end

/-! ## Steps that see no token -/

/-- The builder at another place among the tokens. -/
def Builder.moved (b : Builder) (pending : List ScanItem) (previous : Token) : Builder :=
  { b with pending, previous }

/-- The builder behind some more tokens. -/
def Builder.behind (b : Builder) (ts : List Token) : Builder :=
  b.moved (b.pending.drop ts.length) (ts.getLastD b.previous)

namespace Build

variable {α β : Type}

/-- A step that succeeds wherever the builder stands among the tokens if it succeeds at all, with
the same code, and without complaints. -/
class Blind (x : Build α) : Prop where
  /-- It does the same at any place. -/
  moved : ∀ {b g : Builder} {a : α}, x b = .ok a g → ∀ pending previous,
    x (b.moved pending previous) = .ok a (g.moved pending previous)
  /-- It notes no complaint. -/
  errors : ∀ {b g : Builder} {a : α}, x b = .ok a g → g.errors = b.errors

/-- Blind steps one behind the other are blind. -/
theorem blind_bind {x : Build α} {f : α → Build β} (hx : Blind x) (hf : ∀ a, Blind (f a)) :
    Blind (x >>= f) where
  moved := by
    intro b g c h pending previous
    rcases hrun : x b with ⟨a, b₁⟩ | ⟨e, b₁⟩
    · rw [bind_of_ok hrun] at h
      rw [bind_of_ok (hx.moved hrun pending previous)]
      exact (hf a).moved h pending previous
    · rw [bind_of_error hrun] at h
      simp at h
  errors := by
    intro b g c h
    rcases hrun : x b with ⟨a, b₁⟩ | ⟨e, b₁⟩
    · rw [bind_of_ok hrun] at h
      exact ((hf a).errors h).trans (hx.errors hrun)
    · rw [bind_of_error hrun] at h
      simp at h

instance (x : Build α) (f : α → Build β) [Blind x] [∀ a, Blind (f a)] : Blind (x >>= f) :=
  blind_bind inferInstance inferInstance

instance (a : α) : Blind (pure a : Build α) where
  moved := by
    rintro b _ _ ⟨⟩ pending previous
    rfl
  errors := by
    rintro b _ _ ⟨⟩
    rfl

/-- A step that never succeeds. -/
theorem blind_of_fails {x : Build α} (h : ∀ b a g, x b ≠ .ok a g) : Blind x where
  moved hrun := absurd hrun (h _ _ _)
  errors hrun := absurd hrun (h _ _ _)

instance (token : Token) (kind : ErrorKind) : Blind (fail token kind : Build α) :=
  blind_of_fails fun _ _ _ h => by simp [fail] at h

/-- A change that says nothing of the tokens. -/
theorem blind_modify {f : Builder → Builder}
    (hmoved : ∀ b pending previous, f (b.moved pending previous) = (f b).moved pending previous)
    (herrors : ∀ b, (f b).errors = b.errors) : Blind (modify f : Build Unit) where
  moved := by
    rintro b _ _ ⟨⟩ pending previous
    rw [modify_eq, hmoved]
  errors := by
    rintro b _ _ ⟨⟩
    exact herrors b

/-- A step that depends on the builder, but not on its place among the tokens. -/
theorem blind_get {f : Builder → Build α} (hf : ∀ b, Blind (f b))
    (hsame : ∀ b pending previous, f (b.moved pending previous) = f b) :
    Blind (get >>= f) where
  moved := by
    intro b g a h pending previous
    replace h : f b b = .ok a g := h
    show f (b.moved pending previous) (b.moved pending previous) = _
    rw [hsame]
    exact (hf b).moved h pending previous
  errors := by
    intro b g a h
    exact (hf b).errors (show f b b = .ok a g from h)

instance (c : Prop) [Decidable c] (x y : Build α) [Blind x] [Blind y] :
    Blind (if c then x else y) := by
  split <;> infer_instance

instance (token : Token) (outcome : Except ErrorKind α) : Blind (orFailAt token outcome) := by
  cases outcome <;> (unfold orFailAt; infer_instance)

instance {γ : Type} (xs : List γ) (f : γ → Build PUnit) [∀ x, Blind (f x)] :
    Blind (xs.forM f) := by
  induction xs with
  | nil => exact inferInstanceAs (Blind (pure _))
  | cons x rest ih => exact inferInstanceAs (Blind (f x >>= fun _ => rest.forM f))

instance (f : FunctionContext → FunctionContext) : Blind (modifyContext f) :=
  blind_modify (fun _ _ _ => rfl) fun _ => rfl

instance (op : Opcode) (line : Nat) : Blind (emitAt op line) := by
  unfold emitAt modifyChunk
  infer_instance

instance (op : Opcode) (operand : UInt8) (line : Nat) : Blind (emitWithAt op operand line) := by
  unfold emitWithAt modifyChunk
  infer_instance

instance (byte : UInt8) (line : Nat) : Blind (emitByteAt byte line) := by
  unfold emitByteAt modifyChunk
  infer_instance

instance (op : Opcode) (line : Nat) : Blind (emitJump op line) := by
  unfold emitJump codeSize modifyChunk
  rw [bind_assoc]
  exact blind_get (fun _ => inferInstance) fun _ _ _ => rfl

instance (outcome : Except JumpError Chunk) : Blind (setChunk outcome) := by
  cases outcome with
  | ok chunk =>
    unfold setChunk modifyChunk
    infer_instance
  | error e => exact blind_of_fails fun _ _ _ h => by cases h

instance (offset : Nat) : Blind (patchJump offset) := by
  unfold patchJump
  exact blind_get (fun _ => inferInstance) fun _ _ _ => rfl

instance (token : Token) (value : Value) : Blind (constantAt token value) := by
  unfold constantAt modifyChunk
  refine blind_get (fun b => blind_bind inferInstance fun _ => ?_) fun _ _ _ => rfl
  split <;> infer_instance

instance (name : Token) : Blind (nameConstant name) := by
  unfold nameConstant
  infer_instance

/-- A step whose dependence on the place among the tokens is only in what it complains about. -/
theorem blind_of_ok_congr {x : Token → Build α} (hx : ∀ t, Blind (x t))
    (hsame : ∀ t u b a g, x t b = .ok a g → x u b = .ok a g) :
    Blind (get >>= fun b => x b.previous) where
  moved := by
    intro b g a h pending previous
    replace h : x b.previous b = .ok a g := h
    show x previous (b.moved pending previous) = _
    exact hsame _ _ _ _ _ ((hx _).moved h pending previous)
  errors := by
    intro b g a h
    exact (hx _).errors (show x b.previous b = .ok a g from h)

instance (value : Value) : Blind (constant value) := by
  unfold constant
  refine blind_of_ok_congr (x := fun t => constantAt t value) (fun t => inferInstance) ?_
  intro t u b a g h
  unfold constantAt at h ⊢
  rw [bind_of_ok (x := (get : Build Builder)) rfl] at h ⊢
  rcases hadd : b.context.function.chunk.addConstant value with ⟨_ | index, chunk⟩
  · rw [hadd] at h
    cases h
  · rw [hadd] at h
    exact h

instance (token : Token) : Blind (resolve token) := by
  unfold resolve
  refine blind_get (fun b => blind_bind inferInstance fun slot? => ?_) fun _ _ _ => rfl
  split
  · infer_instance
  · refine blind_bind (blind_modify (fun _ _ _ => rfl) fun _ => rfl) fun _ => ?_
    refine blind_bind inferInstance fun index? => ?_
    split <;> infer_instance

instance (token : Token) : Blind (readVariable token) := by
  unfold readVariable
  infer_instance

instance (token : Token) : Blind (selfAccess token) := by
  unfold selfAccess
  exact blind_get (fun _ => inferInstance) fun _ _ _ => rfl

instance (token : Token) : Blind (requireSuperclass token) := by
  unfold requireSuperclass
  refine blind_get (fun b => ?_) fun _ _ _ => rfl
  split <;> infer_instance

instance (keyword : Token) : Blind (readSuperclass keyword) := by
  unfold readSuperclass
  infer_instance

instance (keyword name : Token) : Blind (inheritedStart keyword name) := by
  unfold inheritedStart
  infer_instance

instance (token : Token) : Blind (numberLiteral token) := by
  unfold numberLiteral
  dsimp only
  split <;> infer_instance

instance (token : Token) : Blind (stringLiteral token) := by
  unfold stringLiteral
  infer_instance

instance (token : Token) : Blind (literal token) := by
  unfold literal
  split <;> infer_instance

instance (excess : ErrorKind) (count : Nat) : Blind (limit excess count) := by
  unfold limit refuse
  by_cases hcount : count = argumentLimit
  · exact blind_of_fails fun b a g h => by simp [hcount] at h; cases h
  · simp only [hcount, decide_false, Bool.false_eq_true, if_false]
    exact blind_get (fun _ => inferInstance) fun _ _ _ => rfl

/-! ## Reading as a blind step does -/

/-- A blind step leaves a builder where it stands among the tokens. -/
theorem Blind.place {x : Build α} [Blind x] {b g : Builder} {a : α} (h : x b = .ok a g) :
    g.pending = b.pending ∧ g.previous = b.previous := by
  -- Moving the builder to where it stands changes nothing.
  have hmoved : x b = .ok a (g.moved b.pending b.previous) := Blind.moved h b.pending b.previous
  rw [h] at hmoved
  injection hmoved with _ hg
  constructor
  · rw [hg]
    rfl
  · rw [hg]
    rfl

/-- A blind step runs cleanly behind some tokens if it does in front of them. -/
theorem clean_behind_iff {x : Build α} [Blind x] {b b' : Builder} {a : α} (ts : List Token) :
    Clean x (b.behind ts) a b' ↔ ∃ g, Clean x b a g ∧ b' = g.behind ts := by
  constructor
  · rintro ⟨hrun, herrors⟩
    -- Moving the builder back gives the run in front of the tokens.
    have hback : x b = .ok a (b'.moved b.pending b.previous) :=
      Blind.moved hrun b.pending b.previous
    obtain ⟨hpending, hprevious⟩ := Blind.place hrun
    refine ⟨_, ⟨hback, herrors⟩, ?_⟩
    show b' = b'.moved (b.behind ts).pending (b.behind ts).previous
    rw [← hpending, ← hprevious]
    rfl
  · rintro ⟨g, ⟨hrun, herrors⟩, rfl⟩
    obtain ⟨hpending, hprevious⟩ := Blind.place hrun
    have hmoved := Blind.moved hrun (b.pending.drop ts.length) (ts.getLastD b.previous)
    rw [Builder.behind, Builder.behind, hpending, hprevious]
    exact ⟨hmoved, herrors⟩

/-- In front of the tokens `ts`, a step has the clean runs of a blind one, but ends behind `ts`. -/
structure Tracks (x y : Build α) (ts : List Token) : Prop where
  /-- The other step sees no token. -/
  blind : Blind y
  /-- The clean runs are the same but for the tokens. -/
  runs : ∀ b rest, b.Reads (ts ++ rest) →
    ∀ a b', Clean x b a b' ↔ ∃ g, Clean y b a g ∧ b' = g.behind ts

end Build

theorem Builder.behind_nil (b : Builder) : b.behind [] = b := rfl

/-- Standing behind some tokens and then others is standing behind both. -/
theorem Builder.behind_append (b : Builder) (ts us : List Token) :
    b.behind (ts ++ us) = (b.behind ts).behind us := by
  have hlast : (ts ++ us).getLastD b.previous = us.getLastD (ts.getLastD b.previous) := by
    simp [List.getLastD_eq_getLast?, List.getLast?_append, Option.getD_or]
  rw [behind, behind, behind, hlast, List.length_append, ← List.drop_drop]
  rfl

/-- A builder that stands behind some tokens reads what comes after them. -/
theorem Builder.Reads.behind {b : Builder} {ts rest : List Token} (h : b.Reads (ts ++ rest)) :
    (b.behind ts).Reads rest := by
  show b.pending.drop ts.length = rest.map .ok
  rw [h, List.map_append]
  exact List.drop_left' (List.length_map _)

namespace Build.Tracks

variable {α β : Type} {x y : Build α} {f k : α → Build β} {z w : Build β} {t : Token}
  {ts us : List Token}

/-- A step that sees no token. -/
theorem still (x : Build α) [Blind x] : Tracks x x [] where
  blind := inferInstance
  runs b rest hb a b' := by
    constructor
    · intro h
      exact ⟨b', h, rfl⟩
    · rintro ⟨g, h, rfl⟩
      exact h

/-- One step after another. -/
theorem bind [∀ a, Cumulative (f a)] (hx : Tracks x y ts) (hf : ∀ a, Tracks (f a) (k a) us) :
    Tracks (x >>= f) (y >>= k) (ts ++ us) where
  blind := blind_bind hx.blind fun a => (hf a).blind
  runs b rest hb c b' := by
    have := hx.blind
    rw [List.append_assoc] at hb
    have hreads : ∀ {a g}, Clean y b a g → (g.behind ts).Reads (us ++ rest) := by
      intro a g hg
      have hpending : g.Reads (ts ++ (us ++ rest)) := (Blind.place hg.1).1.trans hb
      exact hpending.behind
    constructor
    · intro h
      obtain ⟨a, b₁, hrun, h⟩ := h.bind
      obtain ⟨g, hg, rfl⟩ := (hx.runs b _ hb a b₁).1 hrun
      obtain ⟨g₁, hg₁, rfl⟩ := ((hf a).runs _ _ (hreads hg) c b').1 h
      have := (hf a).blind
      obtain ⟨g₂, hg₂, rfl⟩ := (clean_behind_iff ts).1 hg₁
      exact ⟨g₂, hg.then hg₂, (g₂.behind_append ts us).symm⟩
    · rintro ⟨g₂, h, rfl⟩
      obtain ⟨a, g, hrun, h⟩ := h.exists_ok
      have := (hf a).blind
      have hg : Clean y b a g := ⟨hrun, (Blind.errors h.1).symm.trans h.2⟩
      have hbehind := (clean_behind_iff ts).2 ⟨g₂, h, rfl⟩
      have hlast := ((hf a).runs _ _ (hreads hg) c _).2 ⟨_, hbehind, rfl⟩
      rw [g₂.behind_append]
      exact ((hx.runs b _ hb a _).2 ⟨g, hg, rfl⟩).then hlast

/-- A token is passed over. -/
theorem pass (ht : t.kind ≠ .eof) : Tracks Build.pass (pure ()) [t] where
  blind := inferInstance
  runs b rest hb a b' := by
    have htake : b.take = b.behind [t] := by
      rw [Builder.take, hb.next, if_neg ht, ← List.drop_one]
      rfl
    have hrun := pass_of_reads hb
    constructor
    · rintro ⟨h, herrors⟩
      rw [hrun] at h
      injection h with _ hb'
      rw [← hb', htake] at herrors ⊢
      exact ⟨b, ⟨rfl, herrors⟩, rfl⟩
    · rintro ⟨g, hg, rfl⟩
      obtain ⟨-, rfl⟩ := hg.of_pure
      exact ⟨hrun.trans (by rw [htake]), hg.2⟩

theorem pass_then (ht : t.kind ≠ .eof) [Cumulative z] (h : Tracks z w ts) :
    Tracks (Build.pass >>= fun _ => z) w (t :: ts) := by
  have hbind := (Tracks.pass ht).bind fun _ => h
  rwa [pure_bind] at hbind

/-- A step that sees no token is done on both sides. -/
theorem still_then [Blind x] [∀ a, Cumulative (f a)] (h : ∀ a, Tracks (f a) (k a) ts) :
    Tracks (x >>= f) (x >>= k) ts :=
  (Tracks.still x).bind h

theorem congr {y' : Build α} {ts' : List Token} (h : Tracks x y ts) (hy : y = y')
    (hts : ts = ts') : Tracks x y' ts' :=
  hts ▸ hy ▸ h

end Build.Tracks

/-! ## Trees -/

theorem signOps_eq_binaryOps {kind : TokenKind} (h : kind ∈ kind.signLevel.signs) :
    signOps kind = binaryOps kind := by
  revert h
  cases kind <;> decide

/-- The name of an inherited method is read as it is generated. -/
theorem tracks_inheritedName {keyword dot name : Token} (hkeyword : keyword.kind = .superKw)
    (hdot : dot.kind = .dot) (hname : name.kind = .identifier) :
    Tracks (inheritedName keyword name) (inheritedStart keyword name) [keyword, dot, name] := by
  unfold inheritedName inheritedStart
  refine .pass_then (by simp [hkeyword]) (.still_then fun _ => ?_)
  exact .pass_then (by simp [hdot]) (.pass_then (by simp [hname]) (.still _))

/-- The name of a property is read as it is generated. -/
theorem tracks_propertyName {dot name : Token} (hdot : dot.kind = .dot)
    (hname : name.kind = .identifier) :
    Tracks (propertyName name) (nameConstant name) [dot, name] := by
  unfold propertyName
  exact .pass_then (by simp [hdot]) (.pass_then (by simp [hname]) (.still _))

/-- What stands between the elements of a list is read. -/
theorem tracks_divide {es : List Expr} {ts : List Token} (h : Expr.Divides es ts) :
    Tracks (divide es) (pure ()) ts := by
  rw [Expr.Divides] at h
  rw [divide]
  by_cases hempty : es.isEmpty = true
  · rw [if_pos hempty] at h ⊢
    exact h ▸ .still _
  · rw [if_neg hempty] at h ⊢
    obtain ⟨comma, hcomma, rfl⟩ := h
    exact .pass (by simp [hcomma])

theorem Expr.length_bareList (es : List Expr) : (bareList es).length = es.length := by
  induction es with
  | nil => rw [bareList]
  | cons e es ih => rw [bareList, List.length_cons, List.length_cons, ih]

set_option synthInstance.maxSize 512

mutual

/-- **A tree is built from its tokens as it is generated**, and its parentheses leave no trace. -/
theorem Expr.Spells.tracks {e : Expr} {ts : List Token} (h : e.Spells ts) :
    Tracks e.build e.bare.generate ts := by
  -- Each rule is built in the order in which its tokens stand: a token is passed, an operand is
  -- tracked by the same theorem, and what only emits code is still.
  cases e with
  | literal token =>
    rw [Spells] at h
    obtain ⟨hkind, rfl⟩ := h
    rw [build, bare, generate]
    refine .pass_then ?_ (.still _)
    intro heof
    rw [heof] at hkind
    revert hkind
    decide
  | ident token =>
    rw [Spells] at h
    obtain ⟨hkind, rfl⟩ := h
    rw [build, bare, generate]
    exact .pass_then (by simp [hkind]) (.still _)
  | this keyword =>
    rw [Spells] at h
    obtain ⟨hkind, rfl⟩ := h
    rw [build, bare, generate]
    exact .pass_then (by simp [hkind]) (.still _)
  | inherited keyword name =>
    rw [Spells] at h
    obtain ⟨hkeyword, hname, dot, hdot, rfl⟩ := h
    rw [build, bare, generate]
    exact (tracks_inheritedName hkeyword hdot hname).bind fun index => .still _
  | inheritedCall keyword name arguments =>
    rw [Spells] at h
    obtain ⟨hkeyword, hname, dot, opening, us, closing, hdot, hopening, hus, hclosing, rfl⟩ := h
    rw [build, bare, generate, length_bareList]
    refine ((tracks_inheritedName hkeyword hdot hname).bind fun index =>
      .pass_then (t := opening) (by simp [hopening]) ((SpellsList.tracks hus _ 0).bind fun _ =>
        .pass_then (t := closing) (by simp [hclosing]) (.still _))).congr rfl ?_
    simp
  | grouping inner =>
    rw [Spells] at h
    obtain ⟨opening, us, closing, hopening, hus, hclosing, rfl⟩ := h
    rw [build, bare]
    refine .pass_then (by simp [hopening]) ?_
    -- Parentheses are passed and generate nothing.
    exact ((Spells.tracks hus).bind fun _ => .pass (t := closing) (by simp [hclosing])).congr
      bind_pure_unit rfl
  | array bracket elements =>
    rw [Spells] at h
    obtain ⟨hbracket, us, closing, hus, hclosing, rfl⟩ := h
    rw [build, bare, generate, length_bareList]
    refine .pass_then (by simp [hbracket]) ((SpellsList.tracks hus _ 0).bind fun _ => ?_)
    exact .pass_then (by simp [hclosing]) (.still _)
  | unary sign operand =>
    rw [Spells] at h
    obtain ⟨hsign, us, hus, rfl⟩ := h
    rw [build, bare, generate]
    have heof : sign.kind ≠ .eof := by
      intro heof
      simp [heof] at hsign
    exact .pass_then heof (((Spells.tracks hus).bind fun _ => .still _).congr rfl (by simp))
  | binary left sign right =>
    rw [Spells] at h
    obtain ⟨hsign, us, vs, hus, hvs, rfl⟩ := h
    rw [build, bare, generate, ← signOps_eq_binaryOps hsign]
    have heof : sign.kind ≠ .eof := by
      intro heof
      rw [heof] at hsign
      revert hsign
      decide
    refine (Spells.tracks hus).bind fun _ => .pass_then heof ?_
    exact ((Spells.tracks hvs).bind fun _ => .still _).congr rfl (by simp)
  | conjunction left sign right =>
    rw [Spells] at h
    obtain ⟨hsign, us, vs, hus, hvs, rfl⟩ := h
    rw [build, bare, generate]
    refine (Spells.tracks hus).bind fun _ => .pass_then (by simp [hsign]) ?_
    refine .still_then fun _ => .still_then fun _ => ?_
    exact ((Spells.tracks hvs).bind fun _ => .still _).congr rfl (by simp)
  | disjunction left sign right =>
    rw [Spells] at h
    obtain ⟨hsign, us, vs, hus, hvs, rfl⟩ := h
    rw [build, bare, generate]
    refine (Spells.tracks hus).bind fun _ => .pass_then (by simp [hsign]) ?_
    refine .still_then fun _ => .still_then fun _ => .still_then fun _ => .still_then fun _ => ?_
    exact ((Spells.tracks hvs).bind fun _ => .still _).congr rfl (by simp)
  | call callee paren arguments =>
    rw [Spells] at h
    obtain ⟨hparen, us, vs, closing, hus, hvs, hclosing, rfl⟩ := h
    rw [build, bare, generate, length_bareList, List.append_assoc]
    refine (Spells.tracks hus).bind fun _ => .pass_then (by simp [hparen]) ?_
    refine (SpellsList.tracks hvs _ 0).bind fun _ => ?_
    exact .pass_then (by simp [hclosing]) (.still _)
  | subscript callee bracket index =>
    rw [Spells] at h
    obtain ⟨hbracket, us, vs, closing, hus, hvs, hclosing, rfl⟩ := h
    rw [build, bare, generate, List.append_assoc]
    refine (Spells.tracks hus).bind fun _ => .pass_then (by simp [hbracket]) ?_
    refine (Spells.tracks hvs).bind fun _ => ?_
    exact .pass_then (by simp [hclosing]) (.still _)
  | property receiver name =>
    rw [Spells] at h
    obtain ⟨hname, us, dot, hus, hdot, rfl⟩ := h
    rw [build, bare, generate]
    refine (Spells.tracks hus).bind fun _ => ?_
    exact (tracks_propertyName hdot hname).bind fun index => .still _
  | methodCall receiver name arguments =>
    rw [Spells] at h
    obtain ⟨hname, us, dot, opening, vs, closing, hus, hdot, hopening, hvs, hclosing, rfl⟩ := h
    rw [build, bare, generate, length_bareList, List.append_assoc]
    refine (Spells.tracks hus).bind fun _ => ?_
    refine (tracks_propertyName hdot hname).bind fun index => .pass_then (by simp [hopening]) ?_
    refine (SpellsList.tracks hvs _ 0).bind fun _ => ?_
    exact .pass_then (by simp [hclosing]) (.still _)
  | assign name value =>
    rw [Spells] at h
    obtain ⟨hname, sign, us, hsign, hus, rfl⟩ := h
    rw [build, bare, generate]
    refine .pass_then (by simp [hname]) (.still_then fun access => ?_)
    refine .pass_then (by simp [hsign]) ?_
    exact ((Spells.tracks hus).bind fun _ => .still _).congr rfl (by simp)
  | setProperty receiver name value =>
    rw [Spells] at h
    obtain ⟨hname, us, dot, sign, vs, hus, hdot, hsign, hvs, rfl⟩ := h
    rw [build, bare, generate]
    refine (Spells.tracks hus).bind fun _ => ?_
    refine (tracks_propertyName hdot hname).bind fun index => .pass_then (by simp [hsign]) ?_
    exact ((Spells.tracks hvs).bind fun _ => .still _).congr rfl (by simp)

/-- The same for a list of trees. -/
theorem Expr.SpellsList.tracks {es : List Expr} {ts : List Token} (h : SpellsList es ts)
    (excess : ErrorKind) (count : Nat) :
    Tracks (buildList excess count es) (generateList excess count (bareList es)) ts := by
  cases es with
  | nil =>
    rw [SpellsList] at h
    rw [buildList, bareList, generateList, h]
    exact .still _
  | cons e es =>
    rw [SpellsList] at h
    obtain ⟨us, vs, ws, hus, hvs, hws, rfl⟩ := h
    rw [buildList, bareList, generateList]
    have hrest : Tracks (do divide es; buildList excess (count + 1) es)
        (generateList excess (count + 1) (bareList es)) (vs ++ ws) := by
      have hbind := (tracks_divide hvs).bind fun _ => SpellsList.tracks hws excess (count + 1)
      rwa [pure_bind] at hbind
    rw [List.append_assoc]
    exact (Spells.tracks hus).bind fun _ => .still_then fun _ => hrest

end

/-! ## Expressions -/

/-- **An expression is read as its tree says, and parentheses that are not needed change nothing.**
Take any tree, with parentheses of its own wherever they are wanted, and add those that are needed.
In front of its tokens, and then of one that cannot go on with an expression, reading an expression
has just the clean runs of generating the tree without parentheses: with the same code and
constants, and behind the tokens of the tree. -/
theorem expression_generates {e : Expr} (he : e.Formed) :
    (∃ ts, e.rendered.Spells ts) ∧
      ∀ (ts : List Token) (next : Token) (rest : List Token) (b : Builder) (depth : Nat),
        e.rendered.Spells ts → continuation? next.kind = none → next.kind ≠ .equal →
        b.Reads (ts ++ next :: rest) → ts.length < depth →
        ∀ b', Clean (anyExpression (phrase depth)) b () b' ↔
          ∃ g, Clean e.bare.generate b () g ∧ b' = g.behind ts ∧ b'.Reads (next :: rest) := by
  refine ⟨((Expr.formed_rendered e).2 he).exists_spells, ?_⟩
  intro ts next rest b depth hspells hnext hequal hb hdepth b'
  have hderives : Derives (.expression .assignment e.rendered) ts :=
    (Expr.derives_of_spells e ts hspells).weaken (Nat.zero_le _)
  have hparses : Parses (anyExpression (phrase depth)) e.rendered.build ts (next :: rest) :=
    Parsed.parses_any hderives.parsed hdepth hnext hequal
  have htracks := hspells.tracks
  rw [Expr.bare_rendered] at htracks
  rw [hparses.runs b hb () b', htracks.runs b _ hb () b']
  constructor
  · rintro ⟨g, hg, rfl⟩
    have := htracks.blind
    have hpending : g.Reads (ts ++ next :: rest) := (Blind.place hg.1).1.trans hb
    exact ⟨g, hg, rfl, hpending.behind⟩
  · rintro ⟨g, hg, rfl, -⟩
    exact ⟨g, hg, rfl⟩

/-- A disjunction compared with a literal, which has parentheses without need. -/
def eitherEqual : Expr :=
  .binary (.disjunction (.literal (Expr.mark .trueKw)) (Expr.mark .orOr)
      (.literal (Expr.mark .nilKw)))
    (Expr.mark .equalEqual) (.grouping (.literal (Expr.mark .falseKw)))

/-- The tokens of `(true || nil) == (false)`. -/
def eitherEqualTokens : List Token :=
  [.leftParen, .trueKw, .orOr, .nilKw, .rightParen, .equalEqual, .leftParen, .falseKw,
    .rightParen].map Expr.mark

/-- A builder in front of `(true || nil) == (false);`. -/
def eitherEqualStart : Builder :=
  Builder.start #[] "" ((eitherEqualTokens ++ [Expr.mark .semicolon]).map .ok)

/-- The disjunction needs its parentheses, and is compared as a whole. -/
theorem expression_generates_eitherEqual :
    eitherEqual.rendered.Spells eitherEqualTokens ∧
      ∃ b', Clean (anyExpression (phrase 10)) eitherEqualStart () b' ∧
        b'.Reads [Expr.mark .semicolon] ∧
        b'.chunk.code.toList =
          [Opcode.pushTrue.toByte, Opcode.jumpIfFalse.toByte, 0, 3, Opcode.jump.toByte, 0, 2,
            Opcode.pop.toByte, Opcode.pushNil.toByte, Opcode.pushFalse.toByte,
            Opcode.equal.toByte] := by
  have hspells : eitherEqual.rendered.Spells eitherEqualTokens := by
    refine ⟨by decide, [.leftParen, .trueKw, .orOr, .nilKw, .rightParen].map Expr.mark,
      [.leftParen, .falseKw, .rightParen].map Expr.mark, ?_, ?_, rfl⟩
    · exact ⟨_, [.trueKw, .orOr, .nilKw].map Expr.mark, _, rfl,
        ⟨rfl, [Expr.mark .trueKw], [Expr.mark .nilKw], ⟨by decide, rfl⟩, ⟨by decide, rfl⟩, rfl⟩,
        rfl, rfl⟩
    · exact ⟨_, [Expr.mark .falseKw], _, rfl, ⟨by decide, rfl⟩, rfl, rfl⟩
  have hliteral : ∀ kind ∈ TokenKind.literals, (Expr.literal (Expr.mark kind)).Formed :=
    fun _ hkind => hkind
  have hformed : eitherEqual.Formed :=
    ⟨by decide, ⟨rfl, hliteral _ (by decide), hliteral _ (by decide)⟩, hliteral _ (by decide)⟩
  have hreads := (expression_generates hformed).2 eitherEqualTokens (Expr.mark .semicolon) []
    eitherEqualStart 10 hspells rfl (by decide) rfl (by decide)
  have hgenerate : Clean eitherEqual.bare.generate eitherEqualStart ()
      (Build.after eitherEqual.bare.generate eitherEqualStart) := ⟨rfl, rfl⟩
  have hread := (hreads _).2 ⟨_, hgenerate, rfl, rfl⟩
  exact ⟨hspells, _, hread, rfl, by decide⟩

end ScriptVM
