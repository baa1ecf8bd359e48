/-
# The sources that compile

The code of a syntax tree is built cleanly just if the tree obeys the static rules and there is room
for what it costs (`Expr.spends`, `Decl.spends`).  With what is known about reading, a source
compiles just if its tokens spell declarations that obey the rules.

Main statement: `Program.compile_isOk_iff`.
-/
import ScriptVM.Proofs.Syntax.Charging
import ScriptVM.Proofs.Syntax.Recognition
import ScriptVM.Proofs.Token.Numerals
import ScriptVM.Proofs.Token.Tiling

namespace ScriptVM

open Build (Spends Clean)

/-! ## Places behind declarations -/

/-- The place behind declarations in a row. -/
def Decl.afterAll (site : Site) (ds : List Decl) : Site :=
  ds.foldl Decl.after site

namespace Site

theorem initializing_declare (site : Site) (name : String) :
    (site.declare name).initializing = site.initializing := by
  unfold declare
  split <;> rfl

/-- Names are declared in the innermost scope, one on top of the other. -/
theorem declareAll_eq {site : Site} {scope : List String} {rest : List (List String)}
    (hscopes : site.scopes = scope :: rest) (names : List String) :
    site.declareAll names = { site with scopes := (names.reverse ++ scope) :: rest } := by
  induction names generalizing site scope with
  | nil =>
    rw [List.reverse_nil, List.nil_append, ← hscopes]
    rfl
  | cons name names ih =>
    have hdeclare : site.declare name = { site with scopes := (name :: scope) :: rest } := by
      simp [declare, hscopes]
    have hcons : site.declareAll (name :: names) = (site.declare name).declareAll names := rfl
    rw [hcons, hdeclare, ih rfl, List.reverse_cons, List.append_assoc]
    rfl

end Site

namespace Decl

/-- A declaration declares its name, if it has one. -/
theorem after_eq (site : Site) (d : Decl) : d.after site = site.declareAll d.name?.toList := by
  unfold after
  split
  · next name hname => rw [hname]; rfl
  · next hname => rw [hname]; rfl

/-- Declarations declare their names in order. -/
theorem afterAll_eq (site : Site) (ds : List Decl) :
    afterAll site ds = site.declareAll (ds.filterMap name?) := by
  induction ds generalizing site with
  | nil => rfl
  | cons d ds ih =>
    have hcons : afterAll site (d :: ds) = afterAll (d.after site) ds := rfl
    rw [hcons, ih, after_eq]
    rcases hname : d.name? with _ | name
    · rw [List.filterMap_cons_none hname]
      rfl
    · rw [List.filterMap_cons_some hname]
      rfl

end Decl

-- The longest trees are sequences of a dozen steps.
set_option synthInstance.maxSize 2048

/-! ## Expressions -/

/-- The name of an inherited method is paid for, and so is reading `self`. -/
theorem Build.Spends.inheritedName (keyword name : Token) {site : Site} {s : Nat} :
    Spends site s (Build.inheritedName keyword name)
      (.constant (.string name.lexeme) + site.read "self")
      (site.classes.head? = some true ∧ site.Usable "self") site := by
  have hindex : ∀ (index : UInt8) s, Spends site s (pure index : Build UInt8) 0 True site :=
    fun index s => of_stay fun _ b hb => ⟨index, b, rfl, trivial, hb⟩
  unfold Build.inheritedName
  exact (pass.bind fun _ _ => (requireSuperclass keyword).bind fun _ _ => pass.bind fun _ _ =>
    pass.bind fun _ _ => (nameConstant name).bind fun index _ => (readVariable _).bind fun _ _ =>
    hindex index _).congr (by simp) (by simp)

theorem Build.Spends.readSuperclass (keyword : Token) {site : Site} {s : Nat} :
    Spends site s (Build.readSuperclass keyword) (site.read "super") (site.Usable "super") site :=
  readVariable _

theorem Build.Spends.propertyName (name : Token) {site : Site} {s : Nat} :
    Spends site s (Build.propertyName name) (.constant (.string name.lexeme)) True site := by
  unfold Build.propertyName
  exact (pass.bind fun _ _ => pass.bind fun _ _ => nameConstant name).congr (by simp) (by simp)

open Build.Spends

mutual

/-- **The code of an expression is built cleanly just if the expression obeys the rules.** -/
theorem Expr.spends (e : Expr) (site : Site) (s : Nat) :
    Spends site s e.build (e.cost site) (e.Legal site) site := by
  -- Each case binds what the parts spend in the order of `build`; `congr` then sorts the sum of the
  -- costs and the conjunction of the rules.
  cases e with
  | literal token =>
    unfold Expr.build Expr.cost Expr.Legal
    exact (pass.bind fun _ _ => Spends.literal token).congr (by simp) (by simp)
  | ident token =>
    unfold Expr.build Expr.cost Expr.Legal
    exact (pass.bind fun _ _ => readVariable token).congr (by simp) (by simp)
  | this keyword =>
    unfold Expr.build Expr.cost Expr.Legal
    exact (pass.bind fun _ _ => selfAccess keyword).congr (by simp) (by simp)
  | inherited keyword name =>
    unfold Expr.build Expr.cost Expr.Legal
    exact ((inheritedName keyword name).bind fun index _ => (readSuperclass keyword).bind
      fun _ _ => emitWithAt .getSuper index _).congr (by simp [Cost.add_assoc])
      (by simp [and_assoc])
  | inheritedCall keyword name arguments =>
    have harguments := Expr.spendsList .tooManyArguments arguments site (Nat.zero_le 255)
    unfold Expr.build Expr.cost Expr.Legal
    refine ((inheritedName keyword name).bind fun index _ => pass.bind fun _ _ =>
      (harguments _).bind fun _ _ => pass.bind fun _ _ => (readSuperclass keyword).bind fun _ _ =>
      (emitWithAt .invokeSuper index _).bind fun _ _ => emitByteAt _ _).congr ?_ ?_
    · simp [Cost.add_assoc]
    · rw [Nat.zero_add]
      tauto
  | grouping inner =>
    have hinner := inner.spends site
    unfold Expr.build Expr.cost Expr.Legal
    exact (pass.bind fun _ _ => (hinner _).bind fun _ _ => pass).congr (by simp) (by simp)
  | array bracket elements =>
    have helements := Expr.spendsList .tooManyElements elements site (Nat.zero_le 255)
    unfold Expr.build Expr.cost Expr.Legal
    exact (pass.bind fun _ _ => (helements _).bind fun _ _ => pass.bind fun _ _ =>
      emitWithAt .arrayLiteral _ _).congr (by simp) (by simp)
  | unary sign operand =>
    have hoperand := operand.spends site
    unfold Expr.build Expr.cost Expr.Legal
    exact (pass.bind fun _ _ => (hoperand _).bind fun _ _ => emitAt _ _).congr (by simp) (by simp)
  | binary left sign right =>
    have hleft := left.spends site
    have hright := right.spends site
    unfold Expr.build Expr.cost Expr.Legal
    exact ((hleft _).bind fun _ _ => pass.bind fun _ _ => (hright _).bind fun _ _ =>
      emitAll _ _).congr (by simp [Cost.add_assoc]) (by simp)
  | conjunction left sign right =>
    have hleft := left.spends site
    have hright := right.spends site
    unfold Expr.build Expr.cost Expr.Legal
    refine ((hleft _).bind fun _ _ => pass.bind fun _ _ => (emitJump .jumpIfFalse _).bind_eq <|
      (emitAt .pop _).bind fun _ _ => (hright _).bind fun _ _ => patchJump _).congr ?_ ?_
    · -- The jump has to reach over the second operand, which is why its size is part of the rule.
      ext <;> simp [Cost.bytes]
      omega
    · simp only [Cost.bytes, Cost.size_zero]
      grind
  | disjunction left sign right =>
    have hleft := left.spends site
    have hright := right.spends site
    unfold Expr.build Expr.cost Expr.Legal
    refine ((hleft _).bind fun _ _ => pass.bind fun _ _ => (emitJump .jumpIfFalse _).bind_eq <|
      (emitJump .jump _).bind_eq <| (patchJump _).bind fun _ _ => (emitAt .pop _).bind fun _ _ =>
      (hright _).bind fun _ _ => patchJump _).congr ?_ ?_
    · ext <;> simp [Cost.bytes]
      omega
    · simp only [Cost.bytes, Cost.size_zero]
      grind
  | call callee paren arguments =>
    have hcallee := callee.spends site
    have harguments := Expr.spendsList .tooManyArguments arguments site (Nat.zero_le 255)
    unfold Expr.build Expr.cost Expr.Legal
    exact ((hcallee _).bind fun _ _ => pass.bind fun _ _ => (harguments _).bind fun _ _ =>
      pass.bind fun _ _ => emitWithAt .call _ _).congr (by simp [Cost.add_assoc]) (by simp)
  | subscript callee bracket index =>
    have hcallee := callee.spends site
    have hindex := index.spends site
    unfold Expr.build Expr.cost Expr.Legal
    exact ((hcallee _).bind fun _ _ => pass.bind fun _ _ => (hindex _).bind fun _ _ =>
      pass.bind fun _ _ => emitWithAt .call _ _).congr (by simp [Cost.add_assoc]) (by simp)
  | property receiver name =>
    have hreceiver := receiver.spends site
    unfold Expr.build Expr.cost Expr.Legal
    exact ((hreceiver _).bind fun _ _ => (propertyName name).bind fun index _ =>
      emitWithAt .getProperty index _).congr (by simp [Cost.add_assoc]) (by simp)
  | methodCall receiver name arguments =>
    have hreceiver := receiver.spends site
    have harguments := Expr.spendsList .tooManyArguments arguments site (Nat.zero_le 255)
    unfold Expr.build Expr.cost Expr.Legal
    exact ((hreceiver _).bind fun _ _ => (propertyName name).bind fun index _ =>
      pass.bind fun _ _ => (harguments _).bind fun _ _ => pass.bind fun _ _ =>
      (emitWithAt .invoke index _).bind fun _ _ => emitByteAt _ _).congr (by simp [Cost.add_assoc])
      (by simp)
  | assign name value =>
    have hvalue := value.spends site
    unfold Expr.build Expr.cost Expr.Legal
    exact (pass.bind fun _ _ => (resolve name).bind fun access _ => pass.bind fun _ _ =>
      (hvalue _).bind fun _ _ => emitWithAt access.setOp access.index _).congr
      (by simp [Cost.add_assoc]) (by simp)
  | setProperty receiver name value =>
    have hreceiver := receiver.spends site
    have hvalue := value.spends site
    unfold Expr.build Expr.cost Expr.Legal
    exact ((hreceiver _).bind fun _ _ => (propertyName name).bind fun index _ =>
      pass.bind fun _ _ => (hvalue _).bind fun _ _ => emitWithAt .setProperty index _).congr
      (by simp [Cost.add_assoc]) (by simp)

/-- A list of expressions of which `count` are read. -/
theorem Expr.spendsList (excess : ErrorKind) (es : List Expr) (site : Site) {count : Nat}
    (hcount : count ≤ 255) (s : Nat) :
    Spends site s (Expr.buildList excess count es) (Expr.costList site es)
      (Expr.LegalList site es ∧ count + es.length ≤ 255) site := by
  cases es with
  | nil =>
    unfold Expr.buildList Expr.costList Expr.LegalList
    exact done.congr rfl (by simpa using hcount)
  | cons e es =>
    have he := e.spends site
    unfold Expr.buildList Expr.costList Expr.LegalList
    by_cases hfull : count = 255
    · -- One more is too many.
      refine never (fun b r b' hclean => ?_) ?_
      · obtain ⟨_, _, -, hclean⟩ := hclean.bind
        obtain ⟨_, _, hlimit, -⟩ := hclean.bind
        have hlimit := hlimit.bind_get
        rw [Build.refuse, if_pos (decide_eq_true (show count = argumentLimit from hfull))] at hlimit
        exact Clean.not_fail hlimit
      · simp only [hfull, List.length_cons]
        omega
    · have hes := Expr.spendsList excess es site (Nat.lt_of_le_of_ne hcount hfull)
      refine ((he _).bind fun _ _ => (Spends.limit excess count).bind fun _ _ =>
        (divide es).bind fun _ _ => hes _).congr ?_ ?_
      · simp
      · have hlength : count + 1 + es.length = count + (es.length + 1) := by omega
        simp [hfull, hlength, and_assoc]

end

/-! ## Declarations -/

/-- The place in the body of a function. -/
theorem Site.inBody_eq (site : Site) (kind : FunctionKind) (parameters : List Token) :
    site.inBody kind parameters =
      { site.inFunction kind with scopes := [(parameters.map (·.lexeme)).reverse] } := by
  rw [inBody, declareAll_eq rfl, List.append_nil]

/-- The declarations in a body leave the scopes around the function alone. -/
theorem Decl.afterAll_inBody (site : Site) (kind : FunctionKind) (parameters : List Token)
    (ds : List Decl) :
    ∃ scope, Decl.afterAll (site.inBody kind parameters) ds =
      { site.inFunction kind with scopes := [scope] } := by
  rw [Decl.afterAll_eq, Site.inBody_eq, Site.declareAll_eq rfl]
  exact ⟨_, rfl⟩

/-- The declarations in a scope leave the scopes around it alone. -/
theorem Decl.afterAll_enter (site : Site) (ds : List Decl) :
    Decl.afterAll site.enter ds =
      { site with scopes := (ds.filterMap Decl.name?).reverse :: site.scopes } := by
  rw [Decl.afterAll_eq, Site.declareAll_eq rfl, List.append_nil]
  rfl

/-- A function that captures, holds and declares no more than it may. -/
theorem Spends.routine_of_body (label : String) (kind : FunctionKind) {site : Site} {s : Nat}
    (hinit : site.initializing = none) {parameters : Build Unit} [Build.Cumulative parameters]
    {P : Prop} {names : List Token} {body : List Decl}
    (hparameters : ∀ s, Spends (site.inFunction kind) s parameters (.taking names) P
      (site.inBody kind names))
    (hbody : ∀ s, Spends (site.inBody kind names) s (Decl.buildAll body)
      (Decl.costAll (site.inBody kind names) body) (Decl.LegalAll (site.inBody kind names) body)
      (Decl.afterAll (site.inBody kind names) body)) :
    Spends site s (Build.routine label kind parameters (Decl.buildAll body))
      (site.closure (.taking names + Decl.costAll (site.inBody kind names) body))
      (P ∧ Decl.LegalAll (site.inBody kind names) body ∧
        (Cost.taking names + Decl.costAll (site.inBody kind names) body).Within) site := by
  obtain ⟨scope, hafter⟩ := Decl.afterAll_inBody site kind names body
  refine routine hinit hparameters hbody ?_ ?_
  · rw [hafter]
    rfl
  · rw [hafter]
    rfl

mutual

/-- **The code of a declaration is built cleanly just if the declaration obeys the rules.** -/
theorem Decl.spends (d : Decl) (site : Site) (hinit : site.initializing = none) (s : Nat) :
    Spends site s d.build (d.cost site) (d.Legal site) (d.after site) := by
  have hdeclared : ∀ name, (site.declare name).initializing = none := fun name =>
    (site.initializing_declare name).trans hinit
  -- As for expressions, but the parts stand at the site that the declarations in front of them
  -- leave.
  cases d with
  | classDecl name parent members =>
    cases parent with
    | none =>
      -- The name is declared first, so the members see it.
      have hmembers := Member.spendsAll members
        ((site.declare name.lexeme).inClass none) (hdeclared _)
      unfold Decl.build Decl.cost Decl.Legal
      refine (pass.bind fun _ _ => classOf name hinit (fun _ => done) hmembers).congr ?_ ?_
      · simp [Cost.add_assoc]
      · simp
    | some parent =>
      have hmembers := Member.spendsAll members
        ((site.declare name.lexeme).inClass (some parent)) (hdeclared _)
      unfold Decl.build Decl.cost Decl.Legal
      refine (pass.bind fun _ _ => classOf name hinit
        (fun _ => parentClass name parent (hdeclared _)) hmembers).congr ?_ ?_
      · simp [Cost.add_assoc]
      · simp [and_assoc]
  | func name parameters body =>
    have hbody := Decl.spendsAll body ((site.declare name.lexeme).inBody .function parameters)
      (by rw [Site.inBody_eq]; rfl)
    have hroutine : ∀ label s, Spends (site.declare name.lexeme) s
        (Build.routine label .function (Build.parameterList parameters) (Decl.buildAll body))
        _ _ _ := fun label s => Spends.routine_of_body label .function (hdeclared _)
      (fun _ => parameterList parameters (by simp [Site.inFunction]) rfl) hbody
    unfold Decl.build Decl.cost Decl.Legal
    refine (pass.bind fun _ _ => (newName name hinit).bind fun name? hname =>
      get fun a b hb => (markInitialized name.lexeme hinit).bind fun _ _ =>
      (hroutine b.previous.lexeme _).bind fun _ _ =>
      defineVariable_of_initialized name.lexeme hinit hname).congr ?_ ?_
    · simp [Cost.add_assoc]
    · simp
  | var name initial =>
    cases initial with
    | none =>
      unfold Decl.build Decl.cost Decl.Legal
      refine (pass.bind fun _ _ => (newName name hinit).bind fun name? hname =>
        (emit .pushNil).bind fun _ _ => pass.bind fun _ _ =>
        defineVariable name.lexeme hinit hname).congr ?_ ?_
      · simp
      · simp
    | some value =>
      -- The initial value is read while the name is being initialized.
      have hvalue := value.spends (site.declaring name.lexeme)
      unfold Decl.build Decl.cost Decl.Legal
      refine (pass.bind fun _ _ => (newName name hinit).bind fun name? hname => pass.bind fun _ _ =>
        (hvalue _).bind fun _ _ => pass.bind fun _ _ =>
          defineVariable name.lexeme hinit hname).congr
        ?_ ?_
      · simp [Cost.add_assoc]
      · simp
  | print keyword value =>
    have hvalue := value.spends site
    unfold Decl.build Decl.cost Decl.Legal
    exact (pass.bind fun _ _ => (hvalue _).bind fun _ _ => pass.bind fun _ _ =>
      emitAt .print _).congr (by simp) (by simp)
  | leave keyword value =>
    cases value with
    | none =>
      unfold Decl.build Decl.cost Decl.Legal
      refine (Spends.leave keyword fun s hkind => ?_).congr rfl (iff_of_eq (and_true _))
      have hreturn : returnSize site.kind = 2 := by
        rcases hkind with hkind | hkind <;> rw [hkind] <;> rfl
      exact (pass.bind fun _ _ => emitReturn).congr (by rw [hreturn, Cost.zero_add]) (by simp)
    | some value =>
      have hvalue := value.spends site
      unfold Decl.build Decl.cost Decl.Legal
      exact Spends.leave keyword fun s _ => ((hvalue _).bind fun _ _ => pass.bind fun _ _ =>
        emitAt .ret _).congr (by simp) (by simp)
  | ifThen condition body =>
    have hcondition := condition.spends site
    have hbody := Decl.spendsAll body site.enter hinit
    rw [Decl.afterAll_enter] at hbody
    unfold Decl.build Decl.cost Decl.Legal
    refine (pass.bind fun _ _ => branch hinit hcondition hbody fun _ => done).congr ?_ ?_
    · simp [Decl.declared]
    · simp [Decl.declared, Decl.blockSize]
  | ifElse condition body alternative =>
    have hcondition := condition.spends site
    have hbody := Decl.spendsAll body site.enter hinit
    have halternative := fun s => (pass.bind fun _ _ =>
      alternative.spends site hinit _ : Spends site s _ _ _ _)
    rw [Decl.afterAll_enter] at hbody
    unfold Decl.build Decl.cost Decl.Legal
    refine (pass.bind fun _ _ => branch hinit hcondition hbody halternative).congr ?_ ?_
    · simp [Decl.declared]
    · simp [Decl.declared, Decl.blockSize]
  | loop condition body =>
    have hcondition := condition.spends site
    have hbody := Decl.spendsAll body site.enter hinit
    rw [Decl.afterAll_enter] at hbody
    unfold Decl.build Decl.cost Decl.Legal
    refine (pass.bind fun _ _ => cycle hinit hcondition hbody).congr ?_ ?_
    · simp [Decl.declared]
    · simp [Decl.declared, Decl.blockSize]
  | block body =>
    have hbody := Decl.spendsAll body site.enter hinit
    rw [Decl.afterAll_enter] at hbody
    unfold Decl.build Decl.cost Decl.Legal
    refine (pass.bind fun _ _ => enclosed hinit hbody).congr ?_ ?_
    · simp [Decl.declared]
    · simp
  | expression value =>
    have hvalue := value.spends site
    unfold Decl.build Decl.cost Decl.Legal
    exact ((hvalue _).bind fun _ _ => pass.bind fun _ _ => emit .pop).congr (by simp) (by simp)

/-- Declarations in a row. -/
theorem Decl.spendsAll (ds : List Decl) (site : Site) (hinit : site.initializing = none) (s : Nat) :
    Spends site s (Decl.buildAll ds) (Decl.costAll site ds) (Decl.LegalAll site ds)
      (Decl.afterAll site ds) := by
  cases ds with
  | nil =>
    unfold Decl.buildAll Decl.costAll Decl.LegalAll
    exact done
  | cons d ds =>
    have hafter : (d.after site).initializing = none := by
      rw [Decl.after]
      split
      · exact (site.initializing_declare _).trans hinit
      · exact hinit
    have hd := d.spends site hinit
    have hds := Decl.spendsAll ds (d.after site) hafter
    unfold Decl.buildAll Decl.costAll Decl.LegalAll
    exact (hd _).bind fun _ _ => hds _

/-- A member of a class. -/
theorem Member.spends (m : Member) (site : Site) (hinit : site.initializing = none) (s : Nat) :
    Spends site s m.build (m.cost site) (m.Legal site) site := by
  cases m with
  | property name body =>
    have hbody := Decl.spendsAll body (site.inBody .method []) rfl
    have hroutine := fun s => Spends.routine_of_body (s := s) name.lexeme .method hinit
      (fun _ => done) hbody
    unfold Member.build Member.cost Member.Legal
    refine (pass.bind fun _ _ => pass.bind fun _ _ => (nameConstant name).bind fun index _ =>
      (hroutine _).bind fun _ _ => emitWithAt .computedProperty index _).congr ?_ ?_
    · simp [Cost.add_assoc]
    · simp
  | method name parameters body =>
    have hbody := Decl.spendsAll body (site.inBody (Build.methodKind name) parameters)
      (by rw [Site.inBody_eq]; rfl)
    have hroutine := fun s => Spends.routine_of_body (s := s) name.lexeme (Build.methodKind name)
      hinit (fun _ => parameterList parameters (by simp [Site.inFunction]) rfl) hbody
    unfold Member.build Member.cost Member.Legal
    refine (pass.bind fun _ _ => (nameConstant name).bind fun index _ =>
      (hroutine _).bind fun _ _ => emitWithAt .method index _).congr ?_ ?_
    · simp [Cost.add_assoc]
    · simp

/-- Members in a row. -/
theorem Member.spendsAll (ms : List Member) (site : Site) (hinit : site.initializing = none)
    (s : Nat) :
    Spends site s (Member.buildAll ms) (Member.costAll site ms) (Member.LegalAll site ms) site := by
  cases ms with
  | nil =>
    unfold Member.buildAll Member.costAll Member.LegalAll
    exact done
  | cons m ms =>
    have hm := m.spends site hinit
    have hms := Member.spendsAll ms site hinit
    unfold Member.buildAll Member.costAll Member.LegalAll
    exact (hm _).bind fun _ _ => hms _

end

/-! ## Whole sources -/

/-- The tokens of a source, its end token last. -/
def tokens (source : String) : List Token :=
  (scan source).filterMap (·.toOption)

theorem tokens_of_scan {source : String} {ts : List Token} (h : scan source = ts.map .ok) :
    tokens source = ts := by
  rw [tokens, h, List.filterMap_map]
  exact List.filterMap_some

/-- The depth that the parser is given is enough for all tokens. -/
theorem length_lt_of_scan {source : String} {ts : List Token} {last : Token}
    (h : scan source = (ts ++ [last]).map .ok) : ts.length < 2 * (scan source).length + 2 := by
  rw [h, List.length_map, List.length_append]
  omega

/-- Tokens spell a program if they are declarations and the end token. -/
def SpellsProgram (ts : List Token) (ds : List Decl) : Prop :=
  ∃ us last, ts = us ++ [last] ∧ last.kind = .eof ∧ Derives (.declarations ds) us

/-- Where a source has no error, its items are its tokens. -/
theorem scan_eq_map_tokens {source : String} (h : ∀ e, .error e ∉ scan source) :
    scan source = (tokens source).map .ok := by
  have hall : ∀ items : List ScanItem, (∀ e, .error e ∉ items) →
      items = (items.filterMap (·.toOption)).map .ok := by
    intro items
    induction items with
    | nil => simp
    | cons item items ih =>
      intro hitems
      cases item with
      | error e => exact absurd List.mem_cons_self (hitems e)
      | ok t =>
        have hrest := ih fun e he => hitems e (List.mem_cons_of_mem _ he)
        simpa [Except.toOption] using hrest
  exact hall _ h

/-- No phrase has an end token in it. -/
theorem Derives.kind_ne_eof {n : Nonterminal} {ts : List Token} (h : Derives n ts) :
    ∀ t ∈ ts, t.kind ≠ .eof := by
  induction h with
  | @binary p _ _ _ _ _ _ hsign _ ihl ihr =>
    have hsigns : .eof ∉ p.signs := by cases p <;> decide
    grind
  | literal hkind =>
    have hliterals : TokenKind.eof ∉ TokenKind.literals := by decide
    grind
  | derivedClass hkeyword hname hcolon hparent hopening _ hclosing ih =>
    intro t ht
    simp only [List.cons_append, List.mem_cons, List.mem_append, List.not_mem_nil, or_false] at ht
    rcases ht with rfl | rfl | rfl | rfl | rfl | ht | rfl
    · simp [hkeyword]
    · simp [hname]
    · simp [hcolon]
    · simp [hparent]
    · simp [hopening]
    · exact ih t ht
    · simp [hclosing]
  | _ => grind

/-- A builder at the start of a source. -/
theorem located_start (functions : Array Function) {source : String} {ts : List Token}
    (h : scan source = ts.map .ok) :
    Located .start 0 ⟨0, []⟩ (Builder.start functions source (scan source)) where
  errors_eq := rfl
  tokens := ⟨ts, h⟩
  classes_eq := rfl
  outer_eq := rfl
  size_eq := rfl
  matched := ⟨.start ⟨rfl, rfl, rfl, List.forall_mem_singleton.2 rfl⟩, trivial⟩
  initialized := fun _ hl => absurd hl List.not_mem_nil

/-- A source compiles just if its declarations are read and built cleanly. -/
theorem Program.compile_ok_iff_clean (source : String) :
    (∃ program, Program.compile source = .ok program) ↔
      ∃ b, Clean (Build.declarations (2 * (scan source).length + 2))
        (Builder.start #[] source (scan source)) () b := by
  have hfinish : ∀ b : Builder, (∃ program, b.finish = .ok program) ↔ b.errors = #[] := by
    intro b
    rw [Builder.finish]
    split
    · next hempty => simpa using hempty
    · next hempty => simpa using hempty
  rw [Program.compile, Program.compileAfter, hfinish, Builder.complete]
  constructor
  · intro herrors
    split at herrors
    · next b hrun =>
      obtain ⟨_, b₁, hclean, -⟩ := Clean.bind ⟨hrun, herrors⟩
      exact ⟨b₁, hclean⟩
    · simp at herrors
  · rintro ⟨b, hclean⟩
    obtain ⟨b', hreturn, herrors⟩ : ∃ b', Build.emitReturn b = .ok () b' ∧
      b'.errors = b.errors := by
      rw [Build.emitReturn, Build.bind_of_ok (x := Build.previousLine) rfl,
        Build.bind_of_ok (x := (MonadState.get : Build Builder)) rfl]
      split <;> exact ⟨_, rfl, rfl⟩
    rw [Build.bind_of_ok hclean.1, hreturn]
    exact herrors.trans hclean.2

/-- Reading stops in front of a token. -/
theorem Build.Clean.pending_declarations {depth : Nat} {b b' : Builder}
    (h : Clean (Build.declarations depth) b () b') :
    ∀ e rest, b'.pending ≠ .error e :: rest := by
  obtain ⟨b₁, -, hround⟩ := h.repeatWhile (I := fun _ => True) trivial fun _ _ _ _ => trivial
  unfold blockRound at hround
  obtain ⟨_, b₂, hend, hround⟩ := hround.bind
  obtain ⟨-, rfl⟩ := hend.of_atEnd
  obtain rfl : b₁ = b' := by
    split at hround
    · exact hround.of_pure.2
    · obtain ⟨_, _, -, hround⟩ := hround.bind
      exact absurd hround.of_pure.1 (by simp)
  unfold atEnd at hend
  obtain ⟨_, b₂, hpeek, -⟩ := hend.bind
  intro e rest hpending
  obtain ⟨hrun, herrors⟩ := hpeek
  have hsettle : (settle b₁.source b₁.errors b₁.pending).1 = #[] := by
    change EStateM.Result.ok _ { b₁ with
      errors := (settle b₁.source b₁.errors b₁.pending).1
      pending := (settle b₁.source b₁.errors b₁.pending).2 } = .ok _ b₂ at hrun
    injection hrun with _ hb
    rwa [← hb] at herrors
  have hsize := size_le_settle b₁.source (b₁.errors.push (scanErrorAt b₁.source e)) rest
  rw [hpending, settle] at hsettle
  rw [hsettle] at hsize
  simp at hsize

/-- What is read of a whole source is a program. -/
theorem spells_of_clean {functions : Array Function} {source : String} {depth : Nat} {b : Builder}
    (h : Clean (Build.declarations depth) (Builder.start functions source (scan source)) () b) :
    ∃ ds ts last, scan source = (ts ++ [last]).map .ok ∧ last.kind = .eof ∧
      Derives (.declarations ds) ts := by
  obtain ⟨ds, ts, htook, hds, hend⟩ :=
    Build.recognized_declarations (Build.recognizes_phrase depth) h
  have hscan : scan source = ts.map .ok ++ b.pending := htook
  obtain ⟨items, last, hitems, hlast, hnone, -⟩ := scan_eq_concat source
  rcases hpending : b.pending with _ | ⟨item, rest⟩
  · -- The end token is none of those that were taken.
    rw [hpending, List.append_nil, hitems] at hscan
    have hmem : (.ok last : ScanItem) ∈ ts.map .ok :=
      hscan ▸ List.mem_append_right _ List.mem_cons_self
    obtain ⟨t, ht, htlast⟩ := List.mem_map.1 hmem
    obtain rfl := Except.ok.inj htlast
    exact absurd hlast (hds.kind_ne_eof t ht)
  · cases item with
    | error e => exact absurd hpending (h.pending_declarations e rest)
    | ok t =>
      have hnext : b.next = t := by
        rw [Builder.next, hpending]
        rfl
      have ht : t.kind = .eof := by
        rw [hnext] at hend
        exact hend.elim id id
      refine ⟨ds, ts, t, ?_, ht, hds⟩
      rw [hpending, hitems] at hscan
      rcases List.eq_nil_or_concat rest with rfl | ⟨others, final, rfl⟩
      · rw [hitems, hscan, List.map_append]
        rfl
      · -- Otherwise it would be one of the items in front of the last.
        have hsplit : items ++ [.ok last] = (ts.map .ok ++ .ok t :: others) ++ [final] := by
          rw [hscan, List.concat_eq_append, List.append_assoc, List.cons_append]
        obtain ⟨rfl, -⟩ := List.append_inj' hsplit rfl
        exact absurd ht (hnone t (List.mem_append_right _ List.mem_cons_self))

/-- Declarations that are read as their tree says are built cleanly just if they obey the rules. -/
theorem clean_declarations_iff {functions : Array Function} {source : String} {ds : List Decl}
    {ts : List Token} {last : Token} {depth : Nat} (hscan : scan source = (ts ++ [last]).map .ok)
    (hlast : last.kind = .eof) (hds : Derives (.declarations ds) ts) (hdepth : ts.length < depth) :
    (∃ b, Clean (Build.declarations depth) (Builder.start functions source (scan source)) () b) ↔
      Decl.LegalProgram ds := by
  have hparses := parses_declarations hds hlast hdepth
  have hspends := Decl.spendsAll ds .start rfl 0
  have hstart := located_start functions hscan
  have hreads : (Builder.start functions source (scan source)).Reads (ts ++ [last]) := hscan
  constructor
  · rintro ⟨b, hclean⟩
    have hbuild := (hparses.runs _ hreads () b).1 hclean
    obtain ⟨hlegal, -, hat⟩ := hspends.sound _ _ hstart () b hbuild
    have hwithin : (0 + Decl.costAll .start ds).Within := hat.room.here
    rw [Cost.zero_add] at hwithin
    exact ⟨hlegal, hwithin⟩
  · rintro ⟨hlegal, hwithin⟩
    have hroom : ((⟨0, []⟩ : Account).charge (Decl.costAll .start ds)).Room := by
      refine ⟨?_, fun l hl => absurd hl List.not_mem_nil⟩
      show (0 + Decl.costAll .start ds).Within
      rwa [Cost.zero_add]
    obtain ⟨_, b, hbuild⟩ := hspends.complete _ _ hstart hlegal hroom
    exact ⟨b, (hparses.runs _ hreads () b).2 hbuild⟩

/-- A number of a source has a value if it has a point, or if it is an integer of 64 bits. -/
theorem number?_isSome_iff {source : String} {token : Token} (h : .ok token ∈ scan source)
    (hkind : token.kind = .number) :
    token.number?.isSome ↔ '.' ∈ token.lexeme.toList ∨
      (Decimal.ofDigits token.lexeme.toList : Int) ≤ Int64.maxValue.toInt := by
  obtain ⟨whole, fraction, hne, hwhole, hfraction, htext⟩ := numeral_of_mem_scan h hkind
  rw [Token.number?]
  rcases htext with htext | htext
  · have hpoint : '.' ∉ token.lexeme.toList := by
      rw [htext]
      intro hmem
      simpa using List.all_eq_true.1 hwhole '.' hmem
    rw [if_neg (by simpa using hpoint), Option.isSome_map,
      Decimal.readInt_of_digits (htext ▸ hne) (htext ▸ hwhole)]
    simp [hpoint]
  · have hpoint : '.' ∈ token.lexeme.toList := by simp [htext]
    rw [if_pos (by simpa using hpoint), Option.isSome_map]
    simp [hpoint, Decimal.read_of_point hne hwhole hfraction htext]

/-- **A source compiles just if it is a program of the language**: all of it is tokens, the tokens
spell declarations by the rules of the grammar, and these obey the static rules.  A number of the
source breaks them only if it is an integer beyond 64 bits. -/
theorem Program.compile_isOk_iff (source : String) :
    ((∃ program, Program.compile source = .ok program) ↔
      (∀ e, .error e ∉ scan source) ∧
        ∃ ds, SpellsProgram (tokens source) ds ∧ Decl.LegalProgram ds) ∧
      ∀ token, .ok token ∈ scan source → token.kind = .number →
        (token.number?.isSome ↔ '.' ∈ token.lexeme.toList ∨
          (Decimal.ofDigits token.lexeme.toList : Int) ≤ Int64.maxValue.toInt) := by
  refine ⟨?_, fun token htoken hkind => number?_isSome_iff htoken hkind⟩
  rw [Program.compile_ok_iff_clean]
  constructor
  · rintro ⟨b, hclean⟩
    obtain ⟨ds, ts, last, hscan, hlast, hds⟩ := spells_of_clean hclean
    refine ⟨fun e he => ?_, ds, ⟨ts, last, tokens_of_scan hscan, hlast, hds⟩,
      (clean_declarations_iff hscan hlast hds (length_lt_of_scan hscan)).1 ⟨b, hclean⟩⟩
    rw [hscan] at he
    simp at he
  · rintro ⟨herrors, ds, ⟨ts, last, htokens, hlast, hds⟩, hlegal⟩
    have hscan := scan_eq_map_tokens herrors
    rw [htokens] at hscan
    exact (clean_declarations_iff hscan hlast hds (length_lt_of_scan hscan)).2 hlegal

end ScriptVM
