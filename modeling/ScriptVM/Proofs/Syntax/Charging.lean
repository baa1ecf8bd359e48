/-
# The steps of building and the static rules

What each step of building costs from a place, and which rule it checks there (`Spends`): looking a
variable up, keeping a constant, declaring a local, starting and ending a block, a function or a
class.  A function is built on an account of its own, which stands in front of the others until the
function ends (`Spends.routine`).
-/
import ScriptVM.Proofs.Syntax.Checking

namespace ScriptVM

/-- Looking a name up among the locals fails just where its initial value is being computed. -/
theorem Site.Describes.resolveLocal {site : Site} {c : FunctionContext} (h : site.Describes c)
    (name : String) :
    (site.Usable name ∧
        c.resolveLocal name = .ok ((slotOf name site.locals).map UInt8.ofNat)) ∨
      (¬ site.Usable name ∧ ∃ e, c.resolveLocal name = .error e) := by
  have hinitialized := h.initialized
  rw [← h.names_eq]
  rcases hname : site.initializing with _ | own
  · rw [hname] at hinitialized
    refine .inl ⟨?_, FunctionContext.resolveLocal_of_initialized hinitialized⟩
    rw [Site.Usable, hname]
    simp
  · rw [hname] at hinitialized
    obtain ⟨l, rest, hlocals, rfl, hl, hrest⟩ := hinitialized
    by_cases heq : l.name = name
    · refine .inr ⟨by rw [Site.Usable, hname, heq]; simp, .localInOwnInitializer, ?_⟩
      rw [FunctionContext.resolveLocal, hlocals, FunctionContext.findLocal?, if_pos heq]
      simp [hl]
    · -- The local without a value is another one, and all the others have theirs.
      have hothers : ({ c with locals := rest } : FunctionContext).resolveLocal name =
          .ok ((slotOf name (rest.map (·.name))).map UInt8.ofNat) :=
        FunctionContext.resolveLocal_of_initialized hrest
      refine .inl ⟨?_, ?_⟩
      · rw [Site.Usable, hname]
        simpa using heq
      · rw [hlocals, List.map_cons, slotOf, if_neg heq, ← hothers]
        rw [FunctionContext.resolveLocal, FunctionContext.resolveLocal, hlocals,
          FunctionContext.findLocal?, if_neg heq]

/-- The locals of the innermost block come first. -/
theorem Site.Describes.split {site : Site} {c : FunctionContext} {scope : List String}
    {rest : List (List String)} (h : site.Describes c) (hscopes : site.scopes = scope :: rest) :
    ∃ new old, c.locals = new ++ old ∧ new.map (·.name) = scope ∧
      (∀ l ∈ new, l.depth = rest.length + 1) ∧ (∀ l ∈ old, l.depth ≤ rest.length) ∧
      old.map (fun l => (l.name, l.depth)) =
        slotsOf (FunctionContext.receiverName site.kind) rest := by
  have hlocals := h.locals_eq
  rw [hscopes, slotsOf, List.map_eq_append_iff] at hlocals
  obtain ⟨new, old, hsplit, hnew, hold⟩ := hlocals
  refine ⟨new, old, hsplit, ?_, fun l hl => ?_, fun l hl => ?_, hold⟩
  · have hnames := congrArg (List.map Prod.fst) hnew
    simpa [Function.comp_def] using hnames
  · have hmem : (l.name, l.depth) ∈ scope.map (·, rest.length + 1) :=
      hnew ▸ List.mem_map_of_mem (f := fun l : Local => (l.name, l.depth)) hl
    obtain ⟨x, -, hx⟩ := List.mem_map.1 hmem
    exact (congrArg Prod.snd hx).symm
  · exact depth_le_of_mem_slotsOf
      (hold ▸ List.mem_map_of_mem (f := fun l : Local => (l.name, l.depth)) hl)

/-- A name is declared in the innermost block just if one of its locals has it. -/
theorem Site.Describes.declares {site : Site} {c : FunctionContext} {scope : List String}
    {rest : List (List String)} (h : site.Describes c) (hscopes : site.scopes = scope :: rest)
    (name : String) : c.declares name = true ↔ name ∈ scope := by
  obtain ⟨new, old, hsplit, rfl, hnew, hold, -⟩ := h.split hscopes
  have hdepth : c.depth = rest.length + 1 := by
    rw [h.depth_eq, hscopes]
    rfl
  have hold' : old.takeWhile (·.depth = c.depth) = [] := by
    cases old with
    | nil => rfl
    | cons l others =>
      have := hold l List.mem_cons_self
      rw [List.takeWhile_cons_of_neg]
      simp only [hdepth, decide_eq_true_eq]
      omega
  have htake : c.locals.takeWhile (·.depth = c.depth) = new := by
    rw [hsplit, List.takeWhile_append_of_pos, hold', List.append_nil]
    intro l hl
    simp [hnew l hl, hdepth]
  rw [FunctionContext.declares, htake]
  simp

/-- There is always room for code. -/
theorem Account.Room.charge_bytes {a : Account} (h : a.Room) (n : Nat) :
    (a.charge (.bytes n)).Room := by
  rw [Located.charge_eq rfl]
  refine ⟨⟨?_, ?_, h.here.parameters⟩, h.around⟩
  · show (distinct Value.sameConstant (a.spent.constants ++ [])).length + a.spent.functions ≤ 256
    rw [List.append_nil]
    exact h.here.constants
  · show (distinct (· == ·) (a.spent.captured ++ [])).length ≤ 256
    rw [List.append_nil]
    exact h.here.captured

namespace Located

variable {site : Site} {s : Nat} {a : Account} {b : Builder}

/-- A variable of the functions around is captured. -/
theorem capturing {context : FunctionContext} {enclosing : List FunctionContext}
    {names : List String}
    (h : Located site s a b)
    (hmatched : Matches b.functions.size (context :: enclosing)
      (⟨site, a.spent + .capturing names⟩ :: spread names a.around)) :
    Located site s (a.charge (.capturing names)) { b with context, enclosing } where
  errors_eq := h.errors_eq
  tokens := h.tokens
  classes_eq := h.classes_eq
  outer_eq := by
    rw [← h.outer_eq]
    have hsites := congrArg (List.map Site.locals) (site_spread names a.around)
    rwa [List.map_map, List.map_map] at hsites
  size_eq := h.size_eq
  matched := hmatched
  initialized := by
    intro l hl
    have hsite : l.site ∈ (spread names a.around).map (·.site) := List.mem_map_of_mem hl
    rw [site_spread] at hsite
    obtain ⟨m, hm, hsite⟩ := List.mem_map.1 hsite
    rw [← hsite]
    exact h.initialized m hm

/-- A function starts with an account of its own, in front of the others. -/
theorem beginFunction (h : Located site s a b) (hinit : site.initializing = none) (name : String)
    (kind : FunctionKind) :
    Located { site.inFunction kind with scopes := [] } 0 ⟨0, ⟨site, a.spent⟩ :: a.around⟩
      { b with context := .start name kind, enclosing := b.context :: b.enclosing } where
  errors_eq := h.errors_eq
  tokens := h.tokens
  classes_eq := h.classes_eq
  outer_eq := congrArg (site.locals :: ·) h.outer_eq
  size_eq := rfl
  matched := ⟨.start ⟨rfl, rfl, rfl, List.forall_mem_singleton.2 rfl⟩, h.matched⟩
  initialized := List.forall_mem_cons.2 ⟨hinit, h.initialized⟩

/-- A function that ends leaves the account to the one around it. -/
theorem endFunction {site' : Site} {c spent : Cost} {around : List Level} {t : Nat}
    (h : Located site' t ⟨c, ⟨site, spent⟩ :: around⟩ b) (hclasses : site'.classes = site.classes)
    (houter : site'.outer = site.locals :: site.outer) :
    ∃ outer rest, b.enclosing = outer :: rest ∧
      Located site spent.size ⟨spent, around⟩ { b with context := outer, enclosing := rest } := by
  have hmatched := h.matched.2
  rcases henclosing : b.enclosing with _ | ⟨outer, rest⟩
  · rw [henclosing] at hmatched
    exact absurd hmatched id
  · rw [henclosing] at hmatched
    refine ⟨outer, rest, rfl, ?_⟩
    have hsites := h.outer_eq.trans houter
    exact {
      errors_eq := h.errors_eq
      tokens := h.tokens
      classes_eq := h.classes_eq.trans hclasses
      outer_eq := (List.cons.inj hsites).2
      size_eq := rfl
      matched := hmatched
      initialized := fun l hl => h.initialized l (List.mem_cons_of_mem _ hl) }

/-- Code is charged to the function at hand only. -/
theorem of_charge_bytes {n : Nat} (h : Located site s (a.charge (.bytes n)) b) :
    Located site s ⟨a.spent + .bytes n, a.around⟩ b := by
  rwa [charge_eq rfl] at h

/-- There are as many captures as captured names. -/
theorem captures_size (h : Located site s a b) : b.context.captures.size = a.spent.captureCount :=
  h.matched.1.captures.length_eq

end Located

namespace Build.Spends

variable {α β : Type} {site site₁ : Site} {s : Nat} {c : Cost} {P : Prop} {x : Build α}
  {Q : α → Prop}

/-- A step that spends runs cleanly, or cannot since the rule is broken or there is no room. -/
theorem cases (h : Spends site s x c P site₁ Q) {a : Account} {b : Builder}
    (hb : Located site s a b) :
    (∃ r b', Clean x b r b' ∧ P ∧ Q r ∧ Located site₁ (s + c.size) (a.charge c) b') ∨
      (∀ r b', ¬ Clean x b r b') ∧ ¬ (P ∧ (a.charge c).Room) := by
  by_cases hrun : ∃ r b', Clean x b r b'
  · obtain ⟨r, b', hclean⟩ := hrun
    exact .inl ⟨r, b', hclean, h.sound a b hb r b' hclean⟩
  · refine .inr ⟨fun r b' hclean => hrun ⟨r, b', hclean⟩, ?_⟩
    rintro ⟨hP, hroom⟩
    exact hrun (h.complete a b hb hP hroom)

/-- A step that never runs cleanly, where its rule is broken. -/
theorem never (hx : ∀ b r b', ¬ Clean x b r b') (hP : ¬ P) : Spends site s x c P site₁ Q :=
  of_cases fun _ b _ => .inr ⟨hx b, fun h => hP h.1⟩

/-- What a step spends does not depend on what is made of its result. -/
theorem map {γ : Type} {f : α → γ} {R : γ → Prop} (h : Spends site s x c P site₁ Q)
    (hf : ∀ r, Q r → R (f r)) : Spends site s (f <$> x) c P site₁ R := by
  have hmap : f <$> x = x >>= fun r => pure (f r) := rfl
  rw [hmap]
  have hpure : ∀ r, Q r → Spends site₁ (s + c.size) (pure (f r)) 0 True site₁ R := fun r hr =>
    of_stay fun _ b hb => ⟨f r, b, rfl, hf r hr, hb⟩
  exact (h.bind hpure).congr Cost.add_zero (iff_of_eq (and_true P))

/-! ## Constants -/

/-- A constant is paid for once. -/
theorem constantAt (token : Token) {value : Value} (hvalue : value.function? = none) :
    Spends site s (constantAt token value) (.constant value) True site := by
  refine of_cases fun a b hb => ?_
  rcases hb.matched.1.pool.addConstant hvalue with ⟨⟨i, constants, hadd, hpool⟩, hcount⟩ |
    ⟨hadd, hcount⟩
  · left
    refine ⟨i, b.withChunk { b.chunk with constants }, ⟨?_, hb.errors_eq⟩, trivial, trivial, ?_⟩
    · rw [Build.constantAt, bind_of_ok (x := (MonadState.get : Build Builder)) rfl, hadd]
      rfl
    · exact hb.withChunk rfl rfl rfl hpool (hcount hb.room.here)
  · right
    refine ⟨fun r b' hclean => ?_, fun h => ?_⟩
    · obtain ⟨chunk, hsome, -⟩ := hclean.of_constantAt
      rw [hsome] at hadd
      simp at hadd
    · exact absurd h.2.here.constants (Nat.not_le.2 hcount)

theorem constant {value : Value} (hvalue : value.function? = none) :
    Spends site s (constant value) (.constant value) True site :=
  get fun _ b _ => constantAt b.previous hvalue

theorem nameConstant (name : Token) :
    Spends site s (nameConstant name) (.constant (.string name.lexeme)) True site :=
  constantAt name rfl

/-! ## Variables -/

/-- The access to a variable that no slot of the function is for. -/
def resolveOutside (token : Token) (index : Except ErrorKind (Option UInt8)) : Build Access := do
  match ← orFailAt token index with
  | some index => return ⟨.getUpvalue, .setUpvalue, index⟩
  | none => return ⟨.getGlobal, .setGlobal, ← Build.nameConstant token⟩

/-- Resolving a name pays for what is captured on the way. -/
theorem resolve (token : Token) :
    Spends site s (resolve token) (site.lookUp token.lexeme) (site.Usable token.lexeme) site := by
  refine of_cases fun a b hb => ?_
  rcases hb.describes.resolveLocal token.lexeme with ⟨husable, hlocal⟩ | ⟨hnot, e, hlocal⟩
  · have houter : site.outer.flatten = a.around.flatMap (·.site.locals) := by
      rw [← hb.outer_eq, List.flatMap_def]
    rcases hslot : slotOf token.lexeme site.locals with _ | slot
    · have hname : token.lexeme ∉ site.locals := slotOf_eq_none.1 hslot
      rw [hslot, Option.map_none] at hlocal
      have hrun : Build.resolve token b =
          resolveOutside token (resolveCapture token.lexeme b.context b.enclosing).index
            { b with
              context := (resolveCapture token.lexeme b.context b.enclosing).context
              enclosing := (resolveCapture token.lexeme b.context b.enclosing).enclosing } := by
        rw [Build.resolve, bind_of_ok (x := (MonadState.get : Build Builder)) rfl, hlocal]
        rfl
      -- Not a local of this function: it is a global, or a variable of a function around that is
      -- captured on the way, or there is no room for it.
      rcases @resolveCapture_of_matches _ token.lexeme _ _ _ _ hb.matched hb.initialized with
        ⟨hglobal, hfound⟩ | ⟨hmem, ⟨i, captures, enclosing, hfound, hmatched, -⟩ | ⟨⟨e, he⟩, hfull⟩⟩
      · have hlookUp : site.lookUp token.lexeme = .constant (.string token.lexeme) := by
          rw [Site.lookUp, if_neg hname, if_neg (houter ▸ hglobal)]
        have hglobally : Spends site s
            (do return ⟨.getGlobal, .setGlobal, ← Build.nameConstant token⟩ : Build Access)
            (.constant (.string token.lexeme)) True site :=
          (nameConstant token).map
            (f := fun i => Access.mk .getGlobal .setGlobal i) fun _ _ => trivial
        rw [hfound] at hrun
        rw [hlookUp]
        rcases hglobally.cases hb with ⟨r, b', hclean, -, -, hat⟩ | ⟨hnot, hfull⟩
        · exact .inl ⟨r, b', (clean_congr hrun r b').2 hclean, husable, trivial, hat⟩
        · exact .inr ⟨fun r b' hclean => hnot r b' ((clean_congr hrun r b').1 hclean),
            fun h => hfull ⟨trivial, h.2⟩⟩
      · have hlookUp : site.lookUp token.lexeme = .capturing [token.lexeme] := by
          rw [Site.lookUp, if_neg hname, if_pos (houter ▸ hmem)]
        rw [hfound] at hrun
        rw [hlookUp]
        exact .inl ⟨_, _, ⟨hrun, hb.errors_eq⟩, husable, trivial, hb.capturing hmatched⟩
      · have hlookUp : site.lookUp token.lexeme = .capturing [token.lexeme] := by
          rw [Site.lookUp, if_neg hname, if_pos (houter ▸ hmem)]
        rw [he] at hrun
        rw [hlookUp]
        refine .inr ⟨fun r b' hclean => ?_, fun h => hfull ⟨h.2.here, h.2.around⟩⟩
        have hfail := hrun.symm.trans hclean.1
        rw [resolveOutside, bind_of_error (x := orFailAt token (.error e)) rfl] at hfail
        simp at hfail
    · have hname : token.lexeme ∈ site.locals := mem_of_slotOf hslot
      rw [hslot, Option.map_some] at hlocal
      rw [Site.lookUp, if_pos hname, Account.charge_zero]
      refine .inl ⟨⟨.getLocal, .setLocal, UInt8.ofNat slot⟩, b, ⟨?_, hb.errors_eq⟩,
        husable, trivial, hb⟩
      rw [Build.resolve, bind_of_ok (x := (MonadState.get : Build Builder)) rfl, hlocal]
      rfl
  · -- The variable is being initialized by this very expression.
    refine .inr ⟨fun r b' hclean => ?_, fun h => hnot h.1⟩
    rcases hclean.of_resolve with ⟨_, hok, -⟩ | ⟨hok, -⟩ | ⟨hok, -⟩ <;>
      (rw [hlocal] at hok; simp at hok)

/-- Reading a variable pays for its instruction as well. -/
theorem readVariable (token : Token) :
    Spends site s (readVariable token) (site.read token.lexeme)
      (site.Usable token.lexeme) site := by
  unfold Build.readVariable
  exact ((resolve token).bind fun access _ => emitWithAt access.getOp access.index token.line).congr
    rfl (iff_of_eq (and_true _))


/-! ## Lists of steps -/

/-- A step whose result is known. -/
theorem bind_eq {f : α → Build β} {site₂ : Site} {d : Cost} {P' : Prop} {R : β → Prop} {v : α}
    [∀ r, Cumulative (f r)] (hx : Spends site s x c P site₁ (· = v))
    (hf : Spends site₁ (s + c.size) (f v) d P' site₂ R) :
    Spends site s (x >>= f) (c + d) (P ∧ P') site₂ R :=
  hx.bind fun _ hr => hr ▸ hf

/-- A step of so many bytes for each element of a list. -/
theorem forM_bytes {γ : Type} {f : γ → Build PUnit} [∀ x, Cumulative (f x)] {n : Nat}
    (hf : ∀ x s, Spends site s (f x) (.bytes n) True site) (xs : List γ) :
    Spends site s (xs.forM f) (.bytes (n * xs.length)) True site := by
  induction xs generalizing s with
  | nil => exact done
  | cons x xs ih =>
    refine ((hf x s).bind fun _ _ => ih).congr ?_ (iff_of_eq (and_true True))
    rw [Cost.bytes_add_bytes, List.length_cons, Nat.mul_succ, Nat.add_comm]

/-! ## Complaints -/

/-- A complaint is free where there is nothing to complain about. -/
theorem refuse (token : Token) (kind : ErrorKind) (wrong : Bool) :
    Spends site s (refuse token kind wrong) 0 (wrong = false) site := by
  cases wrong with
  | false => exact done.congr rfl (by simp)
  | true => exact never (fun _ _ _ => Clean.not_fail) (by simp)

theorem limit (excess : ErrorKind) (count : Nat) :
    Spends site s (limit excess count) 0 (count ≠ 255) site :=
  get fun _ b _ => (refuse b.previous excess (count = argumentLimit)).congr rfl
    decide_eq_false_iff_not

/-! ## Operands -/

/-- A number literal pays for its constant and its instruction. -/
theorem numberLiteral (token : Token) :
    Spends site s (numberLiteral token) ⟨2, token.number?.toList, 0, [], 0⟩ token.number?.isSome
      site := by
  unfold Build.numberLiteral
  rw [← Token.number?]
  rcases hnumber : token.number? with _ | value
  · exact never (fun _ _ _ => Clean.not_fail) (by simp)
  · have hvalue : value.function? = none := by
      rw [Token.number?] at hnumber
      split at hnumber <;>
        (obtain ⟨n, -, rfl⟩ := Option.map_eq_some_iff.1 hnumber; rfl)
    exact ((constant hvalue).bind fun i _ => emitWithAt .constant i token.line).congr rfl (by simp)

theorem stringLiteral (token : Token) :
    Spends site s (stringLiteral token)
      (.constant (.string (unquoted token.lexeme)) + .bytes 2) True site :=
  ((constant rfl).bind fun i _ => emitWithAt .constant i token.line).congr rfl (by simp)

/-- A literal pays for its constant, if it has one, and its instruction. -/
theorem literal (token : Token) :
    Spends site s (literal token) token.literalCost
      (token.kind = .number → token.number?.isSome) site := by
  unfold Build.literal Token.literalCost
  split
  · next hkind =>
    rw [hkind]
    exact (numberLiteral token).congr rfl (by simp)
  · next hkind =>
    rw [hkind]
    exact (stringLiteral token).congr rfl (by simp)
  · next hkind =>
    rw [hkind]
    exact (emitAt .pushTrue token.line).congr rfl (by simp)
  · next hkind =>
    rw [hkind]
    exact (emitAt .pushFalse token.line).congr rfl (by simp)
  · next hnumber hstring _ _ =>
    refine (emitAt .pushNil token.line).congr ?_ ⟨fun _ h => absurd h hnumber, fun _ => trivial⟩
    split
    · next hkind => exact absurd hkind hnumber
    · next hkind => exact absurd hkind hstring
    · rfl

/-- `self` is paid for as a variable, and is allowed in a class only. -/
theorem selfAccess (token : Token) :
    Spends site s (selfAccess token) (site.read token.lexeme)
      (site.classes ≠ [] ∧ site.Usable token.lexeme) site := by
  unfold Build.selfAccess
  refine get fun a b hb => ?_
  have hclasses : b.classes.isEmpty = true ↔ site.classes = [] := by
    rw [← hb.classes_eq]
    simp
  by_cases hempty : b.classes.isEmpty = true
  · rw [if_pos hempty]
    refine never (fun b r b' hclean => ?_) fun h => h.1 (hclasses.1 hempty)
    obtain ⟨_, _, hfail, -⟩ := hclean.bind
    exact Clean.not_fail hfail
  · rw [if_neg hempty]
    exact (done.bind fun _ _ => readVariable token).congr Cost.zero_add
      (by simp [hclasses.not.1 hempty])

/-- `super` is allowed in a class with a superclass only. -/
theorem requireSuperclass (token : Token) :
    Spends site s (requireSuperclass token) 0 (site.classes.head? = some true) site := by
  unfold Build.requireSuperclass
  refine get fun a b hb => ?_
  have hhead : site.classes.head? = b.classes.head?.map (·.hasSuperclass) := by
    rw [← hb.classes_eq, List.head?_map]
  split
  · next hnone =>
    refine never (fun _ _ _ => Clean.not_fail) ?_
    rw [hhead, hnone]
    simp
  · next c hsome =>
    rw [hhead, hsome]
    cases hsuper : c.hasSuperclass with
    | false => exact never (fun _ _ _ => Clean.not_fail) (by simp [hsuper])
    | true => exact done.congr rfl (by simp [hsuper])

/-! ## Blocks -/

/-- Opening a scope is free. -/
theorem beginScope : Spends site s beginScope 0 True site.enter := by
  refine of_stay fun a b hb => ⟨(), _, rfl, trivial, ?_⟩
  refine hb.withLocals rfl rfl rfl rfl ?_ hb.matched.1.slots
  exact {
    hb.describes with
    depth_eq := congrArg (· + 1) hb.describes.depth_eq
    locals_eq := hb.describes.locals_eq }

/-- Closing a scope pays for one instruction for each of its variables. -/
theorem endScope {scope : List String} {rest : List (List String)}
    (hscopes : site.scopes = scope :: rest) (hinit : site.initializing = none) :
    Spends site s endScope (.bytes scope.length) True { site with scopes := rest } := by
  refine of_run fun a b hb => ?_
  obtain ⟨new, old, hlocals, hnames, hnew, hold, hslots⟩ := hb.describes.split hscopes
  have hdepth : b.context.depth = rest.length + 1 := by
    rw [hb.describes.depth_eq, hscopes]
    rfl
  have hvalues : ∀ l ∈ old, l.initialized = true := by
    have hinitialized := hb.describes.initialized
    rw [hinit, hlocals] at hinitialized
    exact fun l hl => hinitialized l (List.mem_append_right new hl)
  have hat : Located { site with scopes := rest } s a
      ((b.withDepth rest.length).withLocals old) := by
    refine hb.withLocals rfl rfl rfl rfl ?_ ?_
    · refine ⟨hb.describes.kind_eq, rfl, hslots, ?_⟩
      show Initialized site.initializing old
      rw [hinit]
      exact hvalues
    · have hle := hb.matched.1.slots
      simp only [Site.locals, hscopes, List.flatten_cons, List.append_assoc,
        List.length_append] at hle ⊢
      omega
  obtain ⟨b', hrun, hat'⟩ := hat.emitAll new dropOp b.previous.line
  refine ⟨(), b', (Clean.endScope_eq hlocals hdepth hnew hold).trans hrun, trivial, ?_⟩
  rwa [← hnames, List.length_map]

/-- A local variable is free as long as there is a slot for it. -/
theorem addLocal (name : String) (token : Token) (hscopes : site.scopes ≠ [])
    (hinit : site.initializing = none) :
    Spends site s (addLocal name token) 0 (site.locals.length < 256) (site.declaring name) := by
  obtain ⟨scope, rest, hscopes⟩ := List.exists_cons_of_ne_nil hscopes
  have hdeclaring : site.declaring name =
      { site with scopes := (name :: scope) :: rest, initializing := some name } := by
    simp [Site.declaring, Site.declare, hscopes]
  have hlocals : (site.declaring name).locals = name :: site.locals := by
    simp [hdeclaring, Site.locals, hscopes]
  refine of_cases fun a b hb => ?_
  have hlength : b.context.locals.length = site.locals.length := by
    rw [← hb.describes.names_eq, List.length_map]
  have hdepth : b.context.depth = rest.length + 1 := by
    rw [hb.describes.depth_eq, hscopes]
    rfl
  by_cases hroom : site.locals.length < 256
  · left
    refine ⟨(), b.withLocals (⟨name, b.context.depth, false, false⟩ :: b.context.locals),
      ⟨?_, hb.errors_eq⟩, hroom, trivial, ?_⟩
    · rw [Build.addLocal, bind_of_ok (x := (MonadState.get : Build Builder)) rfl,
        FunctionContext.addLocal, if_pos (hlength ▸ hroom)]
      rfl
    · rw [Account.charge_zero]
      refine hb.withLocals rfl rfl (by rw [hdeclaring]) (by rw [hdeclaring]) ?_ ?_
      · rw [hdeclaring]
        refine ⟨hb.describes.kind_eq, hdepth, ?_, ?_⟩
        · show (name, b.context.depth) :: b.context.locals.map (fun l => (l.name, l.depth)) = _
          rw [hb.describes.locals_eq, hscopes, hdepth]
          rfl
        · have hinitialized := hb.describes.initialized
          rw [hinit] at hinitialized
          exact ⟨_, _, rfl, rfl, rfl, hinitialized⟩
      · rw [hlocals]
        exact hroom
  · right
    refine ⟨fun r b' hclean => hroom ?_, fun h => hroom h.1⟩
    rw [← hlength]
    exact hclean.of_addLocal.1

/-- Declaring a variable is free, and allowed where no other variable of the scope has the name. -/
theorem declareVariable (name : Token) (hinit : site.initializing = none) :
    Spends site s (declareVariable name) 0 (site.Free name.lexeme)
      (site.declaring name.lexeme) := by
  unfold Build.declareVariable
  refine get fun a b hb => ?_
  dsimp only
  rcases hscopes : site.scopes with _ | ⟨scope, rest⟩
  · have hdepth : ¬ b.context.depth ≠ 0 := by
      rw [hb.describes.depth_eq, hscopes]
      simp
    rw [if_neg hdepth, Site.declaring, if_pos hscopes]
    exact done.congr rfl (by simp [Site.Free, hscopes])
  · have hdepth : b.context.depth ≠ 0 := by
      rw [hb.describes.depth_eq, hscopes]
      simp
    have hdeclares := hb.describes.declares hscopes name.lexeme
    rw [if_pos hdepth]
    by_cases hmem : name.lexeme ∈ scope
    · rw [if_pos (hdeclares.2 hmem)]
      refine never (fun b r b' hclean => ?_) (by simp [Site.Free, hscopes, hmem])
      obtain ⟨_, _, hnote, -⟩ := hclean.bind
      exact Clean.not_noteAt hnote
    · rw [if_neg (hdeclares.not.2 hmem)]
      refine (done.bind fun _ _ => addLocal name.lexeme name ?_ hinit).congr Cost.zero_add ?_
      · rw [hscopes]
        simp
      · simp [Site.Free, hscopes, hmem]

/-- A variable that has been declared may be used from then on. -/
theorem markInitialized (name : String) (hinit : site.initializing = none) :
    Spends (site.declaring name) s markInitialized 0 True (site.declare name) := by
  refine of_stay fun a b hb =>
    ⟨(), { b with context := b.context.markInitialized }, rfl, trivial, ?_⟩
  rcases hscopes : site.scopes with _ | ⟨scope, rest⟩
  · -- A global has no local to be marked.
    have hdeclaring : site.declaring name = site := by simp [Site.declaring, hscopes]
    have hdeclare : site.declare name = site := by simp [Site.declare, hscopes]
    rw [hdeclaring] at hb
    have hsame : b.context.markInitialized = b.context := by
      have hdepth := hb.describes.depth_eq
      rw [hscopes] at hdepth
      rw [FunctionContext.markInitialized, hdepth]
      simp
    rw [hdeclare, hsame]
    exact hb
  · have hdeclaring : site.declaring name =
        { site with scopes := (name :: scope) :: rest, initializing := some name } := by
      simp [Site.declaring, Site.declare, hscopes]
    have hdeclare : site.declare name = { site with scopes := (name :: scope) :: rest } := by
      simp [Site.declare, hscopes]
    rw [hdeclaring] at hb
    obtain ⟨l, others, hlocals, -, -, hothers⟩ := hb.describes.initialized
    have hmark : b.context.markInitialized =
        { b.context with locals := { l with initialized := true } :: others } := by
      rw [FunctionContext.markInitialized]
      split
      · next hcons =>
        rw [hlocals] at hcons
        obtain ⟨rfl, rfl⟩ := List.cons.inj hcons
        rfl
      · next hnone => exact absurd hlocals (hnone _ _ _ hb.describes.depth_eq)
    rw [hdeclare, hmark]
    refine hb.withLocals rfl rfl rfl rfl ?_ hb.matched.1.slots
    have hslots := hb.describes.locals_eq
    rw [hlocals] at hslots
    refine ⟨hb.describes.kind_eq, hb.describes.depth_eq, hslots, ?_⟩
    show Initialized site.initializing _
    rw [hinit]
    exact List.forall_mem_cons.2 ⟨rfl, hothers⟩

/-- The name of a new variable pays for a constant at the outermost level. -/
theorem newName (name : Token) (hinit : site.initializing = none) :
    Spends site s (newName name) (site.nameCost name.lexeme) (site.Free name.lexeme)
      (site.declaring name.lexeme) (fun r => r.isSome ↔ site.scopes = []) := by
  unfold Build.newName
  have hindex : ∀ s, Spends (site.declaring name.lexeme) s
      (do if (← MonadState.get).context.depth > 0 then return none
          else some <$> Build.nameConstant name : Build (Option UInt8))
      (site.nameCost name.lexeme) True (site.declaring name.lexeme)
      (fun r => r.isSome ↔ site.scopes = []) := by
    intro s
    refine get fun a b hb => ?_
    have hdepth := hb.describes.depth_eq
    by_cases hscopes : site.scopes = []
    · rw [Site.declaring, if_pos hscopes, hscopes] at hdepth
      rw [hdepth, if_neg (by simp), Site.nameCost, if_pos hscopes]
      exact (nameConstant name).map (by simp [hscopes])
    · obtain ⟨scope, rest, hcons⟩ := List.exists_cons_of_ne_nil hscopes
      rw [Site.declaring, if_neg hscopes, Site.declare, hcons] at hdepth
      rw [hdepth, if_pos (by simp), Site.nameCost, if_neg hscopes]
      exact of_stay fun _ b hb => ⟨none, b, rfl, by simp [hscopes], hb⟩
  exact (pass.bind fun _ _ => (declareVariable name hinit).bind fun _ _ => hindex _).congr
    (by simp) (by simp)

/-- Noting a second time that a local has its value changes nothing. -/
theorem markInitialized_of_initialized (hinit : site.initializing = none) :
    Spends site s Build.markInitialized 0 True site := by
  refine of_stay fun a b hb =>
    ⟨(), { b with context := b.context.markInitialized }, rfl, trivial, ?_⟩
  have hsame : b.context.markInitialized = b.context := by
    have hinitialized := hb.describes.initialized
    rw [hinit] at hinitialized
    rw [FunctionContext.markInitialized]
    split
    · next l rest hdepth hlocals =>
      have hl : l.initialized = true := hinitialized l (hlocals ▸ List.mem_cons_self)
      have hsame : { l with initialized := true } = l := by rw [← hl]
      rw [hsame, ← hlocals]
    · rfl
  rw [hsame]
  exact hb

/-- A global variable gets its value by its name, and a local has it where it is noted. -/
theorem defineVariable_of {name? : Option UInt8} {site' : Site} {global : Prop} [Decidable global]
    (hname : name?.isSome ↔ global) (hglobal : global → site₁ = site')
    (hlocal : Spends site₁ s Build.markInitialized 0 True site') :
    Spends site₁ s (Build.defineVariable name?) (.bytes (if global then 2 else 0)) True site' := by
  cases name? with
  | some index =>
    have hg : global := hname.1 rfl
    rw [if_pos hg, hglobal hg]
    exact (previousLine.bind fun line _ => emitWithAt .defineGlobal index line).congr
      (by simp) (by simp)
  | none =>
    have hg : ¬ global := by simpa using hname
    rw [if_neg hg]
    exact hlocal

/-- Defining a variable pays for an instruction at the outermost level. -/
theorem defineVariable {name? : Option UInt8} (name : String) (hinit : site.initializing = none)
    (hname : name?.isSome ↔ site.scopes = []) :
    Spends (site.declaring name) s (Build.defineVariable name?) (.bytes site.definitionSize) True
      (site.declare name) := by
  refine defineVariable_of hname (fun hscopes => ?_) (markInitialized name hinit)
  simp [Site.declaring, Site.declare, hscopes]

/-- The function that a variable stands for can refer to it, so the variable is noted to have its
value before. -/
theorem defineVariable_of_initialized {name? : Option UInt8} (name : String)
    (hinit : site.initializing = none) (hname : name?.isSome ↔ site.scopes = []) :
    Spends (site.declare name) s (Build.defineVariable name?) (.bytes site.definitionSize) True
      (site.declare name) := by
  refine defineVariable_of hname (fun _ => rfl) (markInitialized_of_initialized ?_)
  rw [Site.declare]
  split <;> exact hinit

-- The longest steps are sequences of a dozen others.
set_option synthInstance.maxSize 2048

/-! ## Statements -/

/-- A jump that lands needs a distance of two bytes. -/
theorem landAndDrop (jump line : Nat) :
    Spends site s (landAndDrop jump line) (.bytes 1) (jump + 3 ≤ s ∧ s - (jump + 3) ≤ 65535)
      site := by
  unfold Build.landAndDrop
  exact ((patchJump jump).bind fun _ _ => emitAt .pop line).congr (by simp) (by simp)

/-- The bytes that end a function without a value of its own. -/
def returnSize (kind : FunctionKind) : Nat :=
  if kind = .initializer then 3 else 2

/-- Returning pays for its instructions. -/
theorem emitReturn : Spends site s emitReturn (.bytes (returnSize site.kind)) True site := by
  unfold Build.emitReturn
  have hvalue : ∀ line s, Spends site s
      (do
        if (← MonadState.get).context.function.kind = .initializer then
          Build.emitWithAt .getLocal 0 line
        else Build.emitAt .pushNil line
        Build.emitAt .ret line : Build Unit) (.bytes (returnSize site.kind)) True site := by
    intro line s
    refine get fun a b hb => ?_
    rw [hb.describes.kind_eq, returnSize]
    split
    · exact ((emitWithAt .getLocal 0 line).bind fun _ _ => emitAt .ret line).congr rfl (by simp)
    · exact ((emitAt .pushNil line).bind fun _ _ => emitAt .ret line).congr rfl (by simp)
  exact (previousLine.bind fun line _ => hvalue line _).congr Cost.zero_add (by simp)

section

variable {condition body alternative : Build Unit} [Cumulative body] [Cumulative alternative]
  {c₁ c₂ c₃ : Cost} {P₁ P₂ P₃ : Prop} {scope : List String}

/-- What stands in a scope pays for itself and for leaving it. -/
theorem enclosed (hinit : site.initializing = none)
    (hbody : ∀ s, Spends site.enter s body c P { site with scopes := scope :: site.scopes }) :
    Spends site s (enclosed body) (c + .bytes scope.length) P site := by
  have hend : ∀ s, Spends { site with scopes := scope :: site.scopes } s Build.endScope
      (.bytes scope.length) True site := fun s => endScope rfl hinit
  unfold Build.enclosed
  exact (beginScope.bind fun _ _ => (hbody _).bind fun _ _ => pass.bind fun _ _ => hend _).congr
    (by simp) (by simp)

/-- The first jump leads behind the second one, and that behind the alternative. -/
theorem branch (hinit : site.initializing = none)
    (hcondition : ∀ s, Spends site s condition c₁ P₁ site)
    (hbody : ∀ s, Spends site.enter s body c₂ P₂ { site with scopes := scope :: site.scopes })
    (halternative : ∀ s, Spends site s alternative c₃ P₃ site₁) :
    Spends site s (branch condition body alternative)
      (c₁ + .bytes 4 + c₂ + .bytes scope.length + .bytes 4 + c₃)
      (P₁ ∧ P₂ ∧ c₂.size + scope.length + 4 ≤ 65535 ∧ P₃ ∧ c₃.size + 1 ≤ 65535) site₁ := by
  unfold Build.branch
  refine ((hcondition _).bind fun _ _ => previousLine.bind fun line _ => pass.bind fun _ _ =>
    (emitJump .jumpIfFalse line).bind_eq <| (emitAt .pop line).bind fun _ _ =>
    (enclosed hinit hbody).bind fun _ _ => (emitJump .jump line).bind_eq <|
    (landAndDrop _ line).bind fun _ _ => (halternative _).bind fun _ _ => patchJump _).congr ?_ ?_
  · ext <;> simp [Cost.bytes] <;> omega
  · simp [Cost.bytes]
    grind

/-- The first jump leads behind the loop, and the second one back to the condition. -/
theorem cycle [Cumulative condition] (hinit : site.initializing = none)
    (hcondition : ∀ s, Spends site s condition c₁ P₁ site)
    (hbody : ∀ s, Spends site.enter s body c₂ P₂ { site with scopes := scope :: site.scopes }) :
    Spends site s (cycle condition body) (c₁ + .bytes 4 + c₂ + .bytes scope.length + .bytes 4)
      (P₁ ∧ P₂ ∧ c₁.size + (c₂.size + scope.length) + 7 ≤ 65535) site := by
  unfold Build.cycle
  refine (codeSize.bind_eq <| (hcondition _).bind fun _ _ => previousLine.bind fun line _ =>
    pass.bind fun _ _ => (emitJump .jumpIfFalse line).bind_eq <| (emitAt .pop line).bind fun _ _ =>
    (enclosed hinit hbody).bind fun _ _ => (emitLoop _ line).bind fun _ _ =>
    landAndDrop _ line).congr ?_ ?_
  · ext <;> simp [Cost.bytes]
    omega
  · simp [Cost.bytes]
    grind

/-- A return statement behind its keyword. -/
def returning (keyword : Token) (body : Build Unit) : Build Unit := do
  match (← MonadState.get).context.function.kind with
  | .script => fail keyword .returnFromScript
  | .initializer => fail keyword .returnFromInitializer
  | .function | .method => body

instance (keyword : Token) (body : Build Unit) [Cumulative body] :
    Cumulative (returning keyword body) :=
  cumulative_bind inferInstance fun b => by split <;> infer_instance

/-- A return statement is allowed in functions and methods. -/
theorem leave (keyword : Token) (hbody : ∀ s, (site.kind = .function ∨ site.kind = .method) →
    Spends site s body c P site) :
    Spends site s (leave keyword body) c ((site.kind = .function ∨ site.kind = .method) ∧ P)
      site := by
  have hallowed : ∀ s, Spends site s (returning keyword body) c
      ((site.kind = .function ∨ site.kind = .method) ∧ P) site := by
    intro s
    refine get fun a b hb => ?_
    rw [hb.describes.kind_eq]
    split
    · next hkind => exact never (fun _ _ _ => Clean.not_fail) (by simp [hkind])
    · next hkind => exact never (fun _ _ _ => Clean.not_fail) (by simp [hkind])
    · next hkind => exact (hbody s (.inl hkind)).congr rfl (by simp [hkind])
    · next hkind => exact (hbody s (.inr hkind)).congr rfl (by simp [hkind])
  have hleave : Build.leave keyword body = Build.pass >>= fun _ => returning keyword body := rfl
  rw [hleave]
  exact (pass.bind fun _ _ => hallowed _).congr Cost.zero_add (by simp)

end

/-! ## Parameters -/

/-- A parameter is counted. -/
theorem countParameter : Spends site s countParameter ⟨0, [], 0, [], 1⟩ True site := by
  refine of_cases fun a b hb => ?_
  have harity := hb.matched.1.arity_eq
  have hwithin := hb.room.here
  by_cases hfull : b.context.function.arity.toNat = argumentLimit
  · -- With 255 parameters the next one is refused, and its cost does not fit.
    right
    refine ⟨fun r b' hclean => ?_, fun h => ?_⟩
    · unfold Build.countParameter at hclean
      obtain ⟨_, _, hrefuse, -⟩ := hclean.bind_get.bind
      rw [Build.refuse, if_pos (decide_eq_true hfull)] at hrefuse
      exact Clean.not_fail hrefuse
    · have hparameters := h.2.here.parameters
      have hspent : a.spent.parameters = 255 := harity.symm.trans hfull
      simp only [Account.charge, Cost.parameters_add, hspent] at hparameters
      omega
  · left
    have hlt : a.spent.parameters < 255 := by
      have hle := hwithin.parameters
      have hne : a.spent.parameters ≠ 255 := fun h => hfull (harity.trans h)
      omega
    refine ⟨(), { b with context := { b.context with function :=
      { b.context.function with arity := b.context.function.arity + 1 } } }, ⟨?_, hb.errors_eq⟩,
      trivial, trivial, ?_⟩
    · rw [Build.countParameter, bind_of_ok (x := (MonadState.get : Build Builder)) rfl,
        Build.refuse, if_neg (by simpa using hfull)]
      rfl
    · refine hb.withContext rfl rfl rfl {
        describes := { hb.describes with }
        slots := hb.matched.1.slots
        size_eq := hb.matched.1.size_eq
        arity_eq := ?_
        pool := hb.matched.1.pool.congr (List.append_nil _) rfl
        captures := ?_
        within := ?_ }
      · rw [UInt8.toNat_add, harity]
        show (a.spent.parameters + 1) % 256 = a.spent.parameters + 1
        omega
      · rw [Cost.captured_add, List.append_nil]
        exact hb.matched.1.captures
      · refine ⟨?_, ?_, hlt⟩
        · rw [Cost.constantCount, Cost.constants_add, List.append_nil]
          exact hwithin.constants
        · rw [Cost.captureCount, Cost.captured_add, List.append_nil]
          exact hwithin.captured

/-- Parameters take a slot each, and need different names. -/
theorem parameterNames (names : List Token) (hscopes : site.scopes ≠ [])
    (hinit : site.initializing = none) :
    Spends site s (parameterNames names) (.taking names)
      (site.FreeAll (names.map (·.lexeme))) (site.declareAll (names.map (·.lexeme))) := by
  induction names generalizing site s with
  | nil => exact done
  | cons name names ih =>
    obtain ⟨scope, rest, hcons⟩ := List.exists_cons_of_ne_nil hscopes
    have hdeclare : site.declare name.lexeme =
        { site with scopes := (name.lexeme :: scope) :: rest } := by
      simp [Site.declare, hcons]
    have hrest : ∀ s, Spends (site.declare name.lexeme) s (Build.parameterNames names)
        (.taking names) ((site.declare name.lexeme).FreeAll (names.map (·.lexeme)))
        ((site.declare name.lexeme).declareAll (names.map (·.lexeme))) := fun s =>
      ih (by simp [hdeclare]) (by simpa [hdeclare] using hinit)
    unfold Build.parameterNames
    refine (countParameter.bind fun _ _ => (newName name hinit).bind fun name? hname? =>
      (defineVariable name.lexeme hinit hname?).bind fun _ _ => (divide names).bind fun _ _ =>
      hrest _).congr ?_ ?_
    · ext <;> simp [Cost.taking, Cost.bytes, Site.nameCost, Site.definitionSize, hscopes]
      omega
    · simp [Site.FreeAll]

/-- A list of parameters is paid for as its names. -/
theorem parameterList (names : List Token) (hscopes : site.scopes ≠ [])
    (hinit : site.initializing = none) :
    Spends site s (parameterList names) (.taking names)
      (site.FreeAll (names.map (·.lexeme))) (site.declareAll (names.map (·.lexeme))) := by
  unfold Build.parameterList
  exact (pass.bind fun _ _ => (parameterNames names hscopes hinit).bind fun _ _ => pass).congr
    (by simp) (by simp)

/-! ## Functions -/

/-- A finished function is one more constant of the function around. -/
theorem keepFunction (finished : FunctionContext) :
    Spends site s (do Build.constant (.functionRef (← Build.keepFunction finished)))
      ⟨0, [], 1, [], 0⟩ True site := by
  refine of_cases fun a b hb => ?_
  have hkept : Located site s a { b with functions := b.functions.push finished.complete } :=
    { hb with
      matched := by
        have hle : b.functions.size ≤ (b.functions.push finished.complete).size := by simp
        exact hb.matched.mono hle }
  have hrun : (do Build.constant (.functionRef (← Build.keepFunction finished)) : Build UInt8) b =
      Build.constantAt b.previous (.functionRef ⟨b.functions.size⟩)
        { b with functions := b.functions.push finished.complete } := rfl
  have hconstants : (⟨0, [], 1, [], 0⟩ : Cost).constants = [] := rfl
  rcases hb.matched.1.pool.addFunction hconstants rfl with
    ⟨⟨i, constants, hadd, hpool⟩, hcount⟩ | ⟨hadd, hcount⟩
  · left
    refine ⟨i, Builder.withChunk { b with functions := b.functions.push finished.complete }
      { b.chunk with constants }, ⟨?_, hb.errors_eq⟩, trivial, trivial, ?_⟩
    · rw [hrun, Build.constantAt, bind_of_ok (x := (MonadState.get : Build Builder)) rfl, hadd]
      rfl
    · refine hkept.withChunk rfl rfl rfl ?_ hcount
      simpa using hpool
  · right
    refine ⟨fun r b' hclean => ?_, fun h => ?_⟩
    · obtain ⟨chunk, hsome, -⟩ := ((clean_congr hrun r b').1 hclean).of_constantAt
      rw [hsome] at hadd
      simp at hadd
    · exact absurd h.2.here.constants (Nat.not_le.2 hcount)

/-- A closure pays for its function and for what it captures. -/
theorem emitClosure (finished : FunctionContext) (line : Nat) :
    Spends site s (emitClosure finished line) ⟨2 + 2 * finished.captures.size, [], 1, [], 0⟩ True
      site := by
  have hcapture : ∀ (capture : Capture) s, Spends site s
      (do
        Build.emitByteAt (if capture.isLocal then 1 else 0) line
        Build.emitByteAt capture.index line) (.bytes 2) True site := fun capture s =>
    ((emitByteAt _ line).bind fun _ _ => emitByteAt _ line).congr rfl (by simp)
  have hclosure : Build.emitClosure finished line =
      (do
        let index ← do Build.constant (.functionRef (← Build.keepFunction finished))
        Build.emitWithAt .closure index line
        finished.captures.toList.forM fun capture => do
          Build.emitByteAt (if capture.isLocal then 1 else 0) line
          Build.emitByteAt capture.index line) := by
    simp only [Build.emitClosure, forM_array_toList]
  rw [hclosure]
  refine ((keepFunction finished).bind fun index _ => (emitWithAt .closure index line).bind
    fun _ _ => forM_bytes hcapture _).congr ?_ (by simp)
  ext <;> simp [Cost.bytes]

/-- A function from its first block on. -/
def interior (parameters body : Build Unit) : Build Unit := do
  Build.beginScope
  parameters
  Build.pass
  body
  Build.pass

instance (parameters body : Build Unit) [Cumulative parameters] [Cumulative body] :
    Cumulative (interior parameters body) := by
  unfold interior
  infer_instance

/-- A function is built between the start of its context and the instruction for its closure. -/
theorem routine_eq (name : String) (kind : FunctionKind) (parameters body : Build Unit) :
    Build.routine name kind parameters body = (do
      let line ← Build.previousLine
      Build.beginFunction name kind
      interior parameters body
      Build.emitClosure (← Build.endFunction) line) := by
  simp only [Build.routine, interior, bind_assoc]

/-- **A function is within its own limits, and what it captures is charged to those around.** -/
theorem routine {name : String} {kind : FunctionKind} {parameters body : Build Unit}
    [Cumulative parameters] [Cumulative body] {c₁ c₂ : Cost} {P₁ P₂ : Prop} {site₁ site₂ : Site}
    (hinit : site.initializing = none)
    (hparameters : ∀ s, Spends (site.inFunction kind) s parameters c₁ P₁ site₁)
    (hbody : ∀ s, Spends site₁ s body c₂ P₂ site₂) (hclasses : site₂.classes = site.classes)
    (houter : site₂.outer = site.locals :: site.outer) :
    Spends site s (routine name kind parameters body) (site.closure (c₁ + c₂))
      (P₁ ∧ P₂ ∧ (c₁ + c₂).Within) site := by
  have hbegin : ∀ s, Spends { site.inFunction kind with scopes := [] } s Build.beginScope 0 True
      (site.inFunction kind) := fun s => beginScope
  have hinterior : Spends { site.inFunction kind with scopes := [] } 0 (interior parameters body)
      (c₁ + c₂) (P₁ ∧ P₂) site₂ :=
    ((hbegin _).bind fun _ _ => (hparameters _).bind fun _ _ => pass.bind fun _ _ =>
      (hbody _).bind fun _ _ => pass).congr (by simp) (by simp)
  -- What the function captures from further out is charged first, and then the closure.
  let free := (c₁ + c₂).captured.filter (· ∉ site.locals)
  let kept : Cost := ⟨2 + 2 * (c₁ + c₂).captureCount, [], 1, [], 0⟩
  have hcost : site.closure (c₁ + c₂) = .capturing free + kept := by
    ext <;> simp [Site.closure, Cost.capturing, free, kept]
  rw [hcost]
  refine of_cases fun a b hb => ?_
  have hstart := hb.beginFunction hinit name kind
  rcases hinterior.cases hstart with ⟨_, b₁, hclean₁, hP, -, hat₁⟩ | ⟨hnot, hfull⟩
  · obtain ⟨_, b₂, hclean₂⟩ :=
      emitReturn.complete _ _ hat₁ trivial (hat₁.room.charge_bytes _)
    obtain ⟨-, -, hat₂⟩ := emitReturn.sound _ _ hat₁ _ _ hclean₂
    obtain ⟨outer, rest, henclosing, hat₃⟩ := (hat₂.of_charge_bytes).endFunction hclasses houter
    have hcaptures : b₂.context.captures.size = (c₁ + c₂).captureCount := by
      rw [hat₂.captures_size, Cost.captureCount, Cost.captureCount]
      simp [Account.charge, Cost.bytes]
    have hat : Located site s (a.charge (.capturing free))
        { b₂ with context := outer, enclosing := rest } := by
      have hsize : (a.spent + .capturing free).size = s := hb.size_eq
      rw [← hsize]
      exact hat₃
    have hclosure : Spends site s
      (Build.emitClosure b₂.context b.previous.line) kept True site := by
      have hclosure := @emitClosure site s b₂.context b.previous.line
      rwa [hcaptures] at hclosure
    have hend : Build.endFunction b₁ =
        .ok b₂.context { b₂ with context := outer, enclosing := rest } := by
      have hget : (MonadState.get : Build Builder) b₂ = .ok b₂ b₂ := rfl
      rw [Build.endFunction, bind_of_ok hclean₂.1, bind_of_ok hget, bind_of_ok (modify_eq _ _),
        henclosing]
      rfl
    have hrun : Build.routine name kind parameters body b =
        Build.emitClosure b₂.context b.previous.line
          { b₂ with context := outer, enclosing := rest } := by
      rw [routine_eq, bind_of_ok (x := Build.previousLine) rfl,
        bind_of_ok (x := Build.beginFunction name kind) rfl, bind_of_ok hclean₁.1, bind_of_ok hend]
    have hsize : s + (Cost.capturing free + kept).size = s + kept.size := by
      rw [Cost.size_add]
      exact congrArg (s + ·) (Nat.zero_add kept.size)
    rw [hsize, ← Account.charge_charge]
    rcases hclosure.cases hat with ⟨r, b', hclean, -, -, hfinal⟩ | ⟨hnot, hfull⟩
    · refine .inl ⟨r, b', (clean_congr hrun r b').2 hclean, ⟨hP.1, hP.2, ?_⟩, trivial, hfinal⟩
      have hwithin : (0 + (c₁ + c₂)).Within := hat₁.room.here
      rwa [Cost.zero_add] at hwithin
    · exact .inr ⟨fun r b' hclean => hnot r b' ((clean_congr hrun r b').1 hclean),
        fun h => hfull ⟨trivial, h.2⟩⟩
  · refine .inr ⟨fun r b' hclean => ?_, fun h => hfull ⟨⟨h.1.1, h.1.2.1⟩, ?_⟩⟩
    · rw [routine_eq] at hclean
      obtain ⟨_, _, hline, hclean⟩ := hclean.bind
      obtain ⟨-, rfl⟩ := hline.of_previousLine
      obtain ⟨_, _, hbegin, hclean⟩ := hclean.bind
      obtain rfl := hbegin.of_beginFunction
      obtain ⟨_, _, hinside, -⟩ := hclean.bind
      exact hnot _ _ hinside
    · have hroom := h.2
      rw [← Account.charge_charge] at hroom
      refine ⟨?_, ?_⟩
      · show (0 + (c₁ + c₂)).Within
        rw [Cost.zero_add]
        exact h.1.2.2
      · exact List.forall_mem_cons.2 ⟨hroom.of_charge.here, hroom.of_charge.around⟩

/-! ## Classes -/

/-- Entering a class is free. -/
theorem beginClass : Spends site s beginClass 0 True (site.inClass none) :=
  of_stay fun _ b hb => ⟨(), { b with classes := ⟨false⟩ :: b.classes }, rfl, trivial,
    { hb with
      classes_eq := congrArg (false :: ·) hb.classes_eq
      matched := ⟨{ hb.matched.1 with describes := { hb.describes with } }, hb.matched.2⟩ }⟩

/-- A superclass is noted for free. -/
theorem markSuperclass (hasSuperclass : Bool) :
    Spends { site with classes := hasSuperclass :: site.classes } s markSuperclass 0 True
      { site with classes := true :: site.classes } := by
  refine of_stay fun _ b hb => ?_
  rcases hclasses : b.classes with _ | ⟨c, rest⟩
  · have := hb.classes_eq
    simp [hclasses] at this
  · refine ⟨(), { b with classes := ⟨true⟩ :: rest }, ?_, trivial, { hb with
      classes_eq := ?_
      matched := ⟨{ hb.matched.1 with describes := { hb.describes with } }, hb.matched.2⟩ }⟩
    · rw [Build.markSuperclass, modify_eq, hclasses]
    · have hrest := hb.classes_eq
      rw [hclasses, List.map_cons] at hrest
      rw [List.map_cons, (List.cons.inj hrest).2]

/-- The class at hand is left, and with it the block of its superclass. -/
theorem endClass (parent : Option Token) (hinit : site.initializing = none) :
    Spends (site.inClass parent) s endClass (.bytes (if parent.isSome then 1 else 0)) True
      site := by
  unfold Build.endClass
  refine get fun a b hb => ?_
  have hclasses : b.classes.map (·.hasSuperclass) = parent.isSome :: site.classes := by
    rw [hb.classes_eq]
    cases parent <;> rfl
  have htail : b.classes.tail.map (·.hasSuperclass) = site.classes := by
    rw [List.map_tail, hclasses, List.tail_cons]
  have hhead : b.classes.head?.any (·.hasSuperclass) = parent.isSome := by
    have hmap := congrArg List.head? hclasses
    rw [List.head?_map, List.head?_cons, Option.map_eq_some_iff] at hmap
    obtain ⟨c, hc, hsuper⟩ := hmap
    rw [hc, Option.any_some, hsuper]
  -- The class is left in either case; with a superclass its scope ends as well.
  have hleave : ∀ site' s, Spends site' s
      (modify fun b' : Builder => { b' with classes := b.classes.tail }) 0 True
      { site' with classes := site.classes } := fun site' s =>
    of_stay fun _ b' hb' => ⟨(), { b' with classes := b.classes.tail }, rfl, trivial,
      { hb' with
        classes_eq := htail
        matched := ⟨{ hb'.matched.1 with describes := { hb'.describes with } }, hb'.matched.2⟩ }⟩
  dsimp only
  rw [hhead]
  cases parent with
  | none => exact ((hleave (site.inClass none) _).bind fun _ _ => done).congr rfl (by simp)
  | some parent =>
    have hend : ∀ s, Spends { site with scopes := ["super"] :: site.scopes } s Build.endScope
        (.bytes ["super"].length) True site := fun s => by
      refine endScope ?_ hinit
      rfl
    exact ((hleave (site.inClass (some parent)) _).bind fun _ _ => hend _).congr rfl (by simp)

/-- A new class pays for its name and its definition. -/
theorem newClass (name : Token) (hinit : site.initializing = none) :
    Spends site s (newClass name)
      (.constant (.string name.lexeme) + .bytes (2 + site.definitionSize))
      (site.Free name.lexeme) (site.declare name.lexeme) := by
  have hdefine : ∀ index s, Spends (site.declaring name.lexeme) s
      (do Build.defineVariable (if (← MonadState.get).context.depth = 0 then some index else none))
      (.bytes site.definitionSize) True (site.declare name.lexeme) := by
    intro index s
    refine get fun a b hb => ?_
    have hdepth : b.context.depth = 0 ↔ site.scopes = [] := by
      rw [hb.describes.depth_eq]
      rcases hscopes : site.scopes with _ | ⟨scope, rest⟩
      · simp [Site.declaring, hscopes]
      · simp [Site.declaring, Site.declare, hscopes]
    refine defineVariable name.lexeme hinit ?_
    split
    · next hzero => simp [hdepth.1 hzero]
    · next hzero => simp [hdepth.not.1 hzero]
  unfold Build.newClass
  refine (pass.bind fun _ _ => (nameConstant name).bind fun index _ =>
    (declareVariable name hinit).bind fun _ _ => (emitWithAt .newClass index name.line).bind
    fun _ _ => hdefine index _).congr ?_ (by simp)
  ext <;> simp [Cost.bytes]

/-- The superclass becomes a variable of a block of its own. -/
theorem parentClass (name parent : Token) (hinit : site.initializing = none) :
    Spends (site.inClass none) s (parentClass name parent)
      (site.read parent.lexeme + (site.inClass (some parent)).read name.lexeme + .bytes 1)
      (parent.lexeme ≠ name.lexeme ∧ site.locals.length < 256) (site.inClass (some parent)) := by
  have husable : ∀ x, (site.inClass none).Usable x := by
    intro x
    simp [Site.Usable, Site.inClass, hinit]
  have husable' : ∀ x, (site.inClass (some parent)).Usable x := by
    intro x
    simp [Site.Usable, Site.inClass, hinit]
  have hmark : ∀ s, Spends (site.inClass none).enter s Build.markSuperclass 0 True
      { site.enter with classes := true :: site.classes } := fun s =>
    @markSuperclass site.enter s false
  have hadd : ∀ s, Spends { site.enter with classes := true :: site.classes } s
      (Build.addLocal "super" parent) 0 (site.locals.length < 256)
      (Site.declaring { site.enter with classes := true :: site.classes } "super") := fun s =>
    addLocal "super" parent (by simp [Site.enter]) hinit
  have hdefine : ∀ s, Spends
      (Site.declaring { site.enter with classes := true :: site.classes } "super") s
      (Build.defineVariable none) 0 True (site.inClass (some parent)) := fun s =>
    markInitialized "super" hinit
  unfold Build.parentClass
  refine (pass.bind fun _ _ => pass.bind fun _ _ => (refuse parent _ _).bind fun _ _ =>
    (readVariable parent).bind fun _ _ => beginScope.bind fun _ _ => (hmark _).bind fun _ _ =>
    (hadd _).bind fun _ _ => (hdefine _).bind fun _ _ => (readVariable name).bind fun _ _ =>
    emitAt .inherit parent.line).congr ?_ ?_
  · have hread : (site.inClass none).read parent.lexeme = site.read parent.lexeme := rfl
    rw [hread]
    simp [Cost.add_assoc]
  · simp [husable, husable']

/-- A class pays for its name, its superclass and its members. -/
theorem classOf (name : Token) {parent : Option Token} {superclass members : Build Unit}
    [Cumulative superclass] [Cumulative members] {c₁ c₂ : Cost} {P₁ P₂ : Prop}
    (hinit : site.initializing = none)
    (hsuperclass : ∀ s, Spends ((site.declare name.lexeme).inClass none) s superclass c₁ P₁
      ((site.declare name.lexeme).inClass parent))
    (hmembers : ∀ s, Spends ((site.declare name.lexeme).inClass parent) s members c₂ P₂
      ((site.declare name.lexeme).inClass parent)) :
    Spends site s (classOf name superclass members)
      (.constant (.string name.lexeme) + .bytes (2 + site.definitionSize) + c₁ +
        ((site.declare name.lexeme).inClass parent).read name.lexeme + c₂ +
        .bytes (1 + if parent.isSome then 1 else 0))
      (site.Free name.lexeme ∧ P₁ ∧ P₂) (site.declare name.lexeme) := by
  have hinit' : (site.declare name.lexeme).initializing = none := by
    rw [Site.declare]
    split <;> exact hinit
  have husable : ((site.declare name.lexeme).inClass parent).Usable name.lexeme := by
    cases parent <;> simp [Site.Usable, Site.inClass, hinit']
  unfold Build.classOf
  refine ((newClass name hinit).bind fun _ _ => beginClass.bind fun _ _ =>
    (hsuperclass _).bind fun _ _ => (readVariable name).bind fun _ _ => pass.bind fun _ _ =>
    (hmembers _).bind fun _ _ => pass.bind fun _ _ => (emit .pop).bind fun _ _ =>
    endClass parent hinit').congr ?_ ?_
  · simp [Cost.add_assoc]
  · simp [husable]

end Build.Spends

end ScriptVM
