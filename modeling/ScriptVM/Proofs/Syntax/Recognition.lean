/-
# What is read cleanly is a phrase

The converse of reading a phrase as its tree says: a clean run takes tokens that the grammar
derives.  Where a phrase is read by a loop, what holds between two rounds is that the tokens taken
so far can be completed to a phrase; for an expression, that they are one already, of a level that
the next token does not exceed.

Main statement: `recognizes_phrase`.
-/
import ScriptVM.Proofs.Syntax.Parsing

namespace ScriptVM

/-! ## Tokens that were taken -/

/-- The tokens between two states of a builder. -/
def Builder.Took (b : Builder) (ts : List Token) (b' : Builder) : Prop :=
  b.pending = ts.map .ok ++ b'.pending

namespace Builder.Took

variable {b b₁ b₂ : Builder} {ts us : List Token}

theorem of_pending_eq (h : b₁.pending = b.pending) : b.Took [] b₁ := by
  rw [Took, h]
  rfl

theorem refl (b : Builder) : b.Took [] b :=
  of_pending_eq rfl

theorem trans (h₁ : b.Took ts b₁) (h₂ : b₁.Took us b₂) : b.Took (ts ++ us) b₂ := by
  rw [Took, h₁, h₂, List.map_append, List.append_assoc]

/-- Taking a token that is not the last takes that token. -/
theorem of_take (h : b.next.kind ≠ .eof) : b.Took [b.next] b.take := by
  have hpending : b.take.pending = b.pending.tail := by rw [take, if_neg h]
  rw [Took, hpending]
  unfold next Build.firstToken at h ⊢
  split at h
  · next token rest hrest => rw [hrest]; rfl
  · exact absurd rfl h

end Builder.Took

/-- What is derived at one level is derived at every looser one. -/
theorem Derives.weaken {p q : Precedence} {e : Expr} {ts : List Token}
    (h : Derives (.expression q e) ts) (hp : p.rank ≤ q.rank) : Derives (.expression p e) ts := by
  -- There are only finitely many levels between the two.
  have htighter : ∀ p : Precedence, p.rank < q.rank → p.tighter.rank = p.rank + 1 := by
    intro p hlt
    cases p <;> cases q <;> revert hlt <;> decide
  obtain ⟨n, hn⟩ : ∃ n, q.rank = p.rank + n := ⟨q.rank - p.rank, by omega⟩
  induction n generalizing p with
  | zero =>
    have heq : p = q := by
      cases p <;> cases q <;> revert hn <;> decide
    exact heq ▸ h
  | succ n ih =>
    have hstep := htighter p (by omega)
    exact .tighter (ih (by omega) (by omega))

namespace Build

open Builder

variable {inner : Phrase → Build Unit}

/-! ## Phrases -/

/-- A phrase that was taken.  No expression is ever asked for at the level of calls. -/
def Recognized (b b' : Builder) : Phrase → Prop
  | .declaration => ∃ s ts, b.Took ts b' ∧ Derives (.declaration s) ts
  | .conditional => ∃ s ts, b.Took ts b' ∧ Derives (.conditional s) ts
  | .expression q => q ≠ .call → ∃ e ts, b.Took ts b' ∧ Derives (.expression q e) ts ∧
      (∀ r c, continuation? b'.next.kind = some (r, c) → r.rank < q.rank) ∧
      (q = .assignment → b'.next.kind ≠ .equal)

/-- The parts of a phrase are recognized. -/
def Recognizes (inner : Phrase → Build Unit) : Prop :=
  ∀ p b b', Clean (inner p) b () b' → Recognized b b' p

/-! ## Tokens -/

section

variable {b b' : Builder} {u : Unit} {t : Token}

theorem Clean.took_of_silent {α : Type} {step : Build α} [Silent step] {a : α}
    (h : Clean step b a b') : b.Took [] b' :=
  .of_pending_eq h.pending_eq

/-- A token that is expected and found is taken. -/
theorem Clean.took_of_expect {what : Expectation} (h : Clean (expect what) b t b') :
    t.kind = what.kind ∧ b.Took [t] b' := by
  obtain ⟨hkind, rfl, rfl⟩ := h.of_expect
  refine ⟨hkind, .of_take ?_⟩
  rw [hkind]
  cases what <;> simp [Expectation.kind]

/-- A token that is accepted is taken. -/
theorem Clean.took_of_accept {kind : TokenKind} (h : Clean (accept kind) b true b')
    (hkind : kind ≠ .eof) : ∃ t, t.kind = kind ∧ b.Took [t] b' := by
  rcases h.of_accept with ⟨-, hnext, rfl⟩ | ⟨hfalse, -⟩
  · exact ⟨b.next, hnext, .of_take (hnext ▸ hkind)⟩
  · exact absurd hfalse (by simp)

/-- A token that is not accepted is not the one at hand, and nothing is taken. -/
theorem Clean.of_not_accept {kind : TokenKind} (h : Clean (accept kind) b false b') :
    b'.next.kind ≠ kind ∧ b' = b := by
  rcases h.of_accept with ⟨htrue, -⟩ | ⟨-, hnext, rfl⟩
  · exact absurd htrue (by simp)
  · exact ⟨hnext, rfl⟩

/-- A step that takes nothing, behind others. -/
theorem Clean.took_after {α : Type} {step : Build α} [Silent step] {a : α} {b₀ : Builder}
    {ts : List Token} (h : Clean step b a b') (hb : b₀.Took ts b) : b₀.Took ts b' := by
  rw [Took, h.pending_eq]
  exact hb

/-- A step that takes nothing leaves the next token. -/
theorem Clean.next_kind {α : Type} {step : Build α} [Silent step] {a : α} (h : Clean step b a b') :
    b'.next.kind = b.next.kind := by
  unfold Builder.next
  rw [h.pending_eq]
  unfold firstToken
  split <;> rfl

end

/-! ## Lists of expressions -/

section

variable (hinner : Recognizes inner) [∀ p, Cumulative (inner p)] {b b' : Builder} {u : Unit}
include hinner

omit [∀ p, Cumulative (inner p)] in
/-- An expression of any kind that was taken. -/
theorem recognized_any (h : Clean (anyExpression inner) b u b') :
    ∃ e ts, b.Took ts b' ∧ Derives (.expression .assignment e) ts ∧
      (∀ p : Precedence, p.Ends b'.next.kind) ∧ b'.next.kind ≠ .equal := by
  obtain ⟨e, ts, htook, hderives, hstop, hequal⟩ :=
    hinner (.expression .assignment) b b' h (by simp)
  refine ⟨e, ts, htook, hderives, fun p r c hc => ?_, hequal rfl⟩
  exact absurd (hstop r c hc) (Nat.not_lt_zero _)

/-- What is read as a list is one. -/
theorem recognized_list {excess : ErrorKind} {n count : Nat} {items : List ScanItem}
    (h : Clean (listElements inner excess n items) b count b') :
    ∃ es ts, b.Took ts b' ∧ Derives (.list es) ts := by
  induction items generalizing n b with
  | nil =>
    unfold listElements at h
    obtain ⟨_, _, _, hfail⟩ := h.bind
    exact absurd hfail Clean.not_fail
  | cons item items ih =>
    rw [listElements, Parsed.listElement_eq] at h
    obtain ⟨more, b₁, helement, h⟩ := h.bind
    obtain ⟨_, b₂, he, helement⟩ := helement.bind
    obtain ⟨_, b₃, hlimit, hcomma⟩ := helement.bind
    obtain ⟨e, ts, htook, hderives, -⟩ := recognized_any hinner he
    have htook₃ : b.Took ts b₃ := by
      have := htook.trans hlimit.took_of_silent
      rwa [List.append_nil] at this
    cases more with
    | true =>
      obtain ⟨comma, hkind, htook₁⟩ := hcomma.took_of_accept (by simp)
      obtain ⟨es, us, htook', hes⟩ := ih h
      exact ⟨e :: es, _, htook₃.trans (htook₁.trans htook'), .more hderives hkind hes⟩
    | false =>
      obtain ⟨-, rfl⟩ := h.of_pure
      obtain ⟨-, rfl⟩ := hcomma.of_not_accept
      exact ⟨[e], ts, htook₃, .last hderives⟩

/-- A list of expressions up to its closing token. -/
theorem recognized_expressionList {excess : ErrorKind} {what : Expectation} {count : UInt8}
    (h : Clean (expressionList inner excess what) b count b') :
    ∃ es ts closing, b.Took (ts ++ [closing]) b' ∧ Derives (.optionalList es) ts ∧
      closing.kind = what.kind := by
  rw [Parsed.expressionList_eq] at h
  obtain ⟨empty, b₁, hcheck, h⟩ := h.bind
  obtain ⟨-, rfl⟩ := hcheck.of_check
  cases empty with
  | true =>
    obtain ⟨closing, b₂, hclosing, h⟩ := h.bind
    obtain ⟨-, rfl⟩ := h.of_pure
    obtain ⟨hkind, htook⟩ := hclosing.took_of_expect
    exact ⟨[], [], closing, htook, .noList, hkind⟩
  | false =>
    obtain ⟨n, b₂, hlist, h⟩ := h.bind_get.bind
    obtain ⟨closing, b₃, hclosing, h⟩ := h.bind
    obtain ⟨-, rfl⟩ := h.of_pure
    obtain ⟨es, ts, htook, hes⟩ := recognized_list hinner hlist
    obtain ⟨hkind, htook'⟩ := hclosing.took_of_expect
    exact ⟨es, ts, closing, htook.trans htook', .someList hes, hkind⟩

end

/-! ## Expressions -/

-- The longest phrases are sequences of a dozen steps.
set_option synthInstance.maxSize 2048

/-- What was taken is an expression that can be asked for at a level and that does not go on at its
own. -/
def Operand (p : Precedence) (b b' : Builder) : Prop :=
  ∃ e q ts, b.Took ts b' ∧ Derives (.expression q e) ts ∧ p.rank ≤ q.rank ∧
    q.Ends b'.next.kind ∧ (e.isProperty = true → b'.next.kind ≠ .leftParen)

/-- An operator of a level, as the table of continuations has it. -/
theorem mem_signs_of_continuation? {kind : TokenKind} {r operand : Precedence} {ops : List Opcode}
    (h : continuation? kind = some (r, .binary operand ops)) :
    kind ∈ r.signs ∧ operand = r.tighter ∧ r.groupsLeft = true ∧ r ≠ .call := by
  cases kind <;> simp only [continuation?, Option.some.injEq, Prod.mk.injEq, reduceCtorEq,
    Continuation.binary.injEq, and_false] at h <;> obtain ⟨rfl, rfl, -⟩ := h <;> decide

/-- The tokens that go on with an operand in other ways. -/
theorem kind_of_continuation? {kind : TokenKind} {r : Precedence} {c : Continuation}
    (h : continuation? kind = some (r, c)) :
    match c with
    | .binary _ _ => True
    | .conjunction => kind = .andAnd ∧ r = .and
    | .disjunction => kind = .orOr ∧ r = .or
    | .call => kind = .leftParen ∧ r = .call
    | .subscript => kind = .leftBracket ∧ r = .call
    | .property => kind = .dot ∧ r = .call := by
  cases kind <;> simp only [continuation?, Option.some.injEq, Prod.mk.injEq, reduceCtorEq] at h <;>
    obtain ⟨rfl, rfl⟩ := h <;> simp

/-- An operand that is complete by itself. -/
theorem Operand.of_call {p : Precedence} {b b' : Builder} {e : Expr} {ts : List Token}
    (htook : b.Took ts b') (h : Derives (.expression .call e) ts) (he : e.isProperty = false) :
    Operand p b b' := by
  refine ⟨e, .call, ts, htook, h, ?_, Precedence.ends_call _, by simp [he]⟩
  cases p <;> decide

section

variable (hinner : Recognizes inner) [∀ p, Cumulative (inner p)] {p : Precedence}
  {b b₀ b' : Builder} {u : Unit} {t : Token}
include hinner

omit [∀ p, Cumulative (inner p)] in
/-- A sign and the operand behind it are a unary operation. -/
theorem operand_unary {op : Opcode} (hb : b₀.Took [t] b) (ht : t.kind ∈ [.bang, .minus])
    (h : Clean (unary inner op t) b u b') (hp : p ≠ .call) : Operand p b₀ b' := by
  unfold unary at h
  obtain ⟨_, b₁, he, hemit⟩ := h.bind
  obtain ⟨e, ts, htook, hderives, hstop, -⟩ := hinner (.expression .unary) b b₁ he (by simp)
  refine ⟨.unary t e, .unary, t :: ts, hemit.took_after (hb.trans htook), .unary ht hderives, ?_,
    fun r c hc => ?_, by simp [Expr.isProperty]⟩
  · cases p <;> revert hp <;> decide
  · rw [hemit.next_kind] at hc
    exact .inl (hstop r c hc)

/-- A name is a variable, or an assignment if an equals sign stands behind it. -/
theorem operand_variable (hb : b₀.Took [t] b) (ht : t.kind = .identifier)
    (h : Clean (variableAccess inner t (p = .assignment)) b u b') : Operand p b₀ b' := by
  unfold variableAccess at h
  obtain ⟨access, b₁, hresolve, h⟩ := h.bind
  obtain ⟨assigned, b₂, haccept, h⟩ := h.bind
  rcases haccept.of_acceptAssignment with ⟨rfl, hassign, hequal, rfl⟩ | ⟨rfl, -, rfl⟩
  · obtain ⟨_, b₃, he, hemit⟩ := h.bind
    obtain ⟨e, ts, htook, hderives, hends, hnext⟩ := recognized_any hinner he
    have hsign : b₁.Took [b₁.next] b₁.take := .of_take (by simp [hequal])
    refine ⟨.assign t e, .assignment, _, hemit.took_after
      ((hresolve.took_after hb).trans (hsign.trans htook)), .assign ht hequal hderives, ?_, ?_,
      by simp [Expr.isProperty]⟩
    · exact Nat.le_of_eq (congrArg Precedence.rank (of_decide_eq_true hassign))
    · rw [hemit.next_kind]
      exact hends _
  · rw [if_neg Bool.false_ne_true] at h
    exact .of_call (h.took_after (hresolve.took_after hb)) (.ident ht) rfl

/-- The name behind `super` is an inherited method, or a call of it. -/
theorem operand_super (hb : b₀.Took [t] b) (ht : t.kind = .superKw)
    (h : Clean (superAccess inner t) b u b') : Operand p b₀ b' := by
  unfold superAccess at h
  obtain ⟨_, b₁, hrequire, h⟩ := h.bind
  obtain ⟨dot, b₂, hdot, h⟩ := h.bind
  obtain ⟨name, b₃, hname, h⟩ := h.bind
  obtain ⟨index, b₄, hindex, h⟩ := h.bind
  obtain ⟨_, b₅, hself, h⟩ := h.bind
  obtain ⟨hdotKind, htookDot⟩ := hdot.took_of_expect
  obtain ⟨hnameKind, htookName⟩ := hname.took_of_expect
  have htook := hself.took_after (hindex.took_after
    (((hrequire.took_after hb).trans htookDot).trans htookName))
  obtain ⟨called, b₆, haccept, hrest⟩ := h.bind
  cases called with
  | true =>
    obtain ⟨opening, hopening, htookOpening⟩ := haccept.took_of_accept (by simp)
    obtain ⟨count, b₇, harguments, h⟩ := hrest.bind
    obtain ⟨es, ts, closing, htookList, hes, hclosing⟩ :=
      recognized_expressionList hinner harguments
    have hall := (htook.trans htookOpening).trans htookList
    exact .of_call (h.took_after hall)
      (.inheritedCall ht hdotKind hnameKind hopening hes hclosing) rfl
  | false =>
    obtain ⟨hnext, rfl⟩ := haccept.of_not_accept
    rw [if_neg Bool.false_ne_true] at hrest
    refine ⟨.inherited t name, .call, _, hrest.took_after htook, .inherited ht hdotKind hnameKind,
      ?_, Precedence.ends_call _, fun _ => ?_⟩
    · cases p <;> decide
    · rw [hrest.next_kind]
      exact hnext

omit [∀ p, Cumulative (inner p)] in
/-- An expression in parentheses is an operand. -/
theorem operand_grouping (hb : b₀.Took [t] b) (ht : t.kind = .leftParen)
    (h : Clean (grouping inner) b u b') : Operand p b₀ b' := by
  unfold grouping at h
  obtain ⟨_, b₁, he, h⟩ := h.bind
  obtain ⟨closing, b₂, hclosing, h⟩ := h.bind
  obtain ⟨-, rfl⟩ := h.of_pure
  obtain ⟨e, ts, htook, hderives, -⟩ := recognized_any hinner he
  obtain ⟨hkind, htook'⟩ := hclosing.took_of_expect
  exact .of_call ((hb.trans htook).trans htook') (.grouping ht hderives hkind) rfl

/-- Expressions in brackets are an operand. -/
theorem operand_array (hb : b₀.Took [t] b) (ht : t.kind = .leftBracket)
    (h : Clean (arrayLiteral inner t) b u b') : Operand p b₀ b' := by
  unfold arrayLiteral at h
  obtain ⟨count, b₁, hlist, hemit⟩ := h.bind
  obtain ⟨es, ts, closing, htook, hes, hclosing⟩ := recognized_expressionList hinner hlist
  exact .of_call (hemit.took_after (hb.trans htook)) (.array ht hes hclosing) rfl

/-- **The first operand of an expression.** -/
theorem operand_primary (hb : b₀.Took [t] b) (hp : p ≠ .call)
    (h : Clean (primary inner t (p = .assignment)) b u b') : Operand p b₀ b' := by
  have hliteral : ∀ {step : Build Unit} [Silent step], t.kind ∈ TokenKind.literals →
      Clean step b u b' → Operand p b₀ b' := by
    intro step _ ht hstep
    exact .of_call (hstep.took_after hb) (.literal ht) rfl
  unfold primary at h
  split at h <;> rename_i ht
  · exact operand_unary hinner hb (by simp [ht]) h hp
  · exact operand_unary hinner hb (by simp [ht]) h hp
  · exact hliteral (by simp [ht, TokenKind.literals]) h
  · exact hliteral (by simp [ht, TokenKind.literals]) h
  · exact hliteral (by simp [ht, TokenKind.literals]) h
  · exact hliteral (by simp [ht, TokenKind.literals]) h
  · exact hliteral (by simp [ht, TokenKind.literals]) h
  · exact operand_variable hinner hb ht h
  · exact .of_call (h.took_after hb) (.this ht) rfl
  · exact operand_super hinner hb ht h
  · exact operand_grouping hinner hb ht h
  · exact operand_array hinner hb ht h
  · exact absurd h Clean.not_fail

/-! ### Rounds -/

omit hinner [∀ p, Cumulative (inner p)] in
/-- An operand in front of a token that goes on with it is one of the token's level. -/
theorem Operand.of_continuation {c : Continuation} {r : Precedence}
    (hc : continuation? b'.next.kind = some (r, c)) (h : Operand p b b') :
    ∃ e q ts, b.Took (ts ++ [b'.next]) b'.take ∧ Derives (.expression q e) ts ∧
      (r.rank < q.rank ∨ r = q ∧ q.groupsLeft = true) ∧
      (e.isProperty = true → b'.next.kind ≠ .leftParen) := by
  obtain ⟨e, q, ts, htook, hderives, -, hends, hparen⟩ := h
  refine ⟨e, q, ts, htook.trans (.of_take fun heof => ?_), hderives, hends r c hc, hparen⟩
  rw [heof] at hc
  simp [continuation?] at hc

omit [∀ p, Cumulative (inner p)] in
/-- An operand, a sign and another operand are a binary operation. -/
theorem operand_binary {ops : List Opcode} {operand r : Precedence}
    (hc : continuation? b'.next.kind = some (r, .binary operand ops)) (hp : p.rank ≤ r.rank)
    (hop : Operand p b b') {b₁ : Builder}
    (h : Clean (continueWith inner b'.next (p = .assignment) (.binary operand ops)) b'.take u b₁) :
    Operand p b b₁ := by
  obtain ⟨hsign, rfl, hleft, hcall⟩ := mem_signs_of_continuation? hc
  obtain ⟨e, q, ts, htook, hderives, hq, -⟩ := hop.of_continuation hc
  unfold continueWith at h
  obtain ⟨_, b₂, he, hemit⟩ := h.bind
  have htighter : r.tighter ≠ .call := by
    cases r <;> revert hleft hcall <;> decide
  obtain ⟨e', us, htook', hderives', hstop, -⟩ := hinner (.expression r.tighter) _ b₂ he htighter
  have hr : r.rank ≤ q.rank := by
    rcases hq with hlt | ⟨rfl, -⟩
    · exact Nat.le_of_lt hlt
    · exact Nat.le_refl _
  refine ⟨.binary e b'.next e', r, _, hemit.took_after (htook.trans htook'), ?_, hp,
    fun r' c' hc' => ?_, by simp [Expr.isProperty]⟩
  · rw [List.append_assoc]
    exact .binary (hderives.weaken hr) hsign hderives'
  · rw [hemit.next_kind] at hc'
    have hlt := hstop r' c' hc'
    cases r <;> cases r' <;> revert hlt hleft <;> decide

omit [∀ p, Cumulative (inner p)] in
/-- The second operand of an operator that groups to the right. -/
theorem operand_second {q : Precedence} {ts : List Token} {b₁ b₂ : Builder} {e : Expr → Expr}
    (hq : q ≠ .call) (hp : p.rank ≤ q.rank) (htook : b.Took ts b₁)
    (h : Clean (inner (.expression q)) b₁ u b₂)
    (he : ∀ e' us, Derives (.expression q e') us → Derives (.expression q (e e')) (ts ++ us))
    (hproperty : ∀ e', (e e').isProperty = false) {step : Build Unit} [Silent step] {b₃ : Builder}
    (hstep : Clean step b₂ u b₃) : Operand p b b₃ := by
  obtain ⟨e', us, htook', hderives, hstop, -⟩ := hinner (.expression q) b₁ b₂ h hq
  refine ⟨e e', q, _, hstep.took_after (htook.trans htook'), he e' us hderives, hp,
    fun r c hc => ?_, by simp [hproperty]⟩
  rw [hstep.next_kind] at hc
  exact .inl (hstop r c hc)

/-- An operand, `&&` and another operand are a conjunction. -/
theorem operand_conjunction (hc : continuation? b'.next.kind = some (.and, .conjunction))
    (hp : p.rank ≤ Precedence.and.rank) (hop : Operand p b b') {b₁ : Builder}
    (h : Clean (conjunction inner b'.next) b'.take u b₁) : Operand p b b₁ := by
  obtain ⟨e, q, ts, htook, hderives, hq, -⟩ := hop.of_continuation hc
  unfold conjunction at h
  obtain ⟨skip, b₂, hjump, h⟩ := h.bind
  obtain ⟨_, b₃, hpop, h⟩ := h.bind
  obtain ⟨_, b₄, he, hpatch⟩ := h.bind
  have hlevel : Precedence.equality.rank ≤ q.rank := by
    cases q <;> revert hq <;> decide
  refine operand_second hinner (by simp) hp (hpop.took_after (hjump.took_after htook)) he
    (fun e' us he' => ?_) (fun _ => rfl) hpatch (e := fun e' => .conjunction e b'.next e')
  rw [List.append_assoc]
  exact .conjunction (hderives.weaken hlevel) (kind_of_continuation? hc).1 he'

/-- An operand, `||` and another operand are a disjunction. -/
theorem operand_disjunction (hc : continuation? b'.next.kind = some (.or, .disjunction))
    (hp : p.rank ≤ Precedence.or.rank) (hop : Operand p b b') {b₁ : Builder}
    (h : Clean (disjunction inner b'.next) b'.take u b₁) : Operand p b b₁ := by
  obtain ⟨e, q, ts, htook, hderives, hq, -⟩ := hop.of_continuation hc
  unfold disjunction at h
  obtain ⟨go, b₂, hgo, h⟩ := h.bind
  obtain ⟨skip, b₃, hskip, h⟩ := h.bind
  obtain ⟨_, b₄, hland, h⟩ := h.bind
  obtain ⟨_, b₅, hpop, h⟩ := h.bind
  obtain ⟨_, b₆, he, hpatch⟩ := h.bind
  have hlevel : Precedence.and.rank ≤ q.rank := by
    cases q <;> revert hq <;> decide
  refine operand_second hinner (by simp) hp
    (hpop.took_after (hland.took_after (hskip.took_after (hgo.took_after htook)))) he
    (fun e' us he' => ?_) (fun _ => rfl) hpatch (e := fun e' => .disjunction e b'.next e')
  rw [List.append_assoc]
  exact .disjunction (hderives.weaken hlevel) (kind_of_continuation? hc).1 he'

/-- An operand with arguments behind it is a call. -/
theorem operand_call (hc : continuation? b'.next.kind = some (.call, .call)) (hop : Operand p b b')
    {b₁ : Builder} (h : Clean (do emitWithAt .call (← arguments inner) b'.next.line) b'.take u b₁) :
    Operand p b b₁ := by
  obtain ⟨e, q, ts, htook, hderives, hq, hparen⟩ := hop.of_continuation hc
  obtain rfl : q = .call := by
    cases q <;> revert hq <;> decide
  have hkind := (kind_of_continuation? hc).1
  have hproperty : e.isProperty = false := by
    cases he : e.isProperty with
    | true => exact absurd hkind (hparen he)
    | false => rfl
  obtain ⟨count, b₂, hlist, hemit⟩ := h.bind
  obtain ⟨es, us, closing, htook', hes, hclosing⟩ := recognized_expressionList hinner hlist
  have hcall := Derives.call hderives hproperty hkind hes hclosing
  exact .of_call (hemit.took_after (htook.trans htook')) (by simpa using hcall) rfl

omit [∀ p, Cumulative (inner p)] in
/-- An operand with an index in brackets is a subscript. -/
theorem operand_subscript (hc : continuation? b'.next.kind = some (.call, .subscript))
    (hop : Operand p b b') {b₁ : Builder} (h : Clean (subscript inner b'.next) b'.take u b₁) :
    Operand p b b₁ := by
  obtain ⟨e, q, ts, htook, hderives, hq, -⟩ := hop.of_continuation hc
  obtain rfl : q = .call := by
    cases q <;> revert hq <;> decide
  unfold subscript at h
  obtain ⟨_, b₂, hi, h⟩ := h.bind
  obtain ⟨closing, b₃, hclosing, hemit⟩ := h.bind
  obtain ⟨i, us, htook', hderives', -⟩ := recognized_any hinner hi
  obtain ⟨hkind, htook''⟩ := hclosing.took_of_expect
  have hsubscript := Derives.subscript hderives (kind_of_continuation? hc).1 hderives' hkind
  exact .of_call (hemit.took_after ((htook.trans htook').trans htook'')) (by simpa using hsubscript)
    rfl

/-- An operand with a name behind a point is a property, a call of a method or an assignment. -/
theorem operand_property (hc : continuation? b'.next.kind = some (.call, .property))
    (hop : Operand p b b') {b₁ : Builder}
    (h : Clean (property inner (p = .assignment)) b'.take u b₁) : Operand p b b₁ := by
  obtain ⟨e, q, ts, htook, hderives, hq, -⟩ := hop.of_continuation hc
  obtain rfl : q = .call := by
    cases q <;> revert hq <;> decide
  have hdot := (kind_of_continuation? hc).1
  unfold property at h
  obtain ⟨name, b₂, hname, h⟩ := h.bind
  obtain ⟨index, b₃, hindex, h⟩ := h.bind
  obtain ⟨hkind, htookName⟩ := hname.took_of_expect
  have htook₃ := hindex.took_after (htook.trans htookName)
  obtain ⟨assigned, b₄, hassign, hrest⟩ := h.bind
  rcases hassign.of_acceptAssignment with ⟨rfl, hp, hequal, rfl⟩ | ⟨rfl, -, rfl⟩
  · obtain ⟨_, b₅, he, hemit⟩ := hrest.bind
    obtain ⟨v, us, htook', hderives', hends, -⟩ := recognized_any hinner he
    have hsign : b₃.Took [b₃.next] b₃.take := .of_take (by simp [hequal])
    refine ⟨.setProperty e name v, .assignment, _,
      hemit.took_after ((htook₃.trans hsign).trans htook'), ?_,
      Nat.le_of_eq (congrArg Precedence.rank (of_decide_eq_true hp)), ?_, by simp [Expr.isProperty]⟩
    · simp only [List.append_assoc, List.singleton_append]
      exact .setProperty hderives hdot hkind hequal hderives'
    · rw [hemit.next_kind]
      exact hends _
  · rw [if_neg Bool.false_ne_true] at hrest
    obtain ⟨called, b₅, haccept, hread⟩ := hrest.bind
    cases called with
    | true =>
      obtain ⟨opening, hopening, htookOpening⟩ := haccept.took_of_accept (by simp)
      obtain ⟨count, b₆, harguments, hemit⟩ := hread.bind
      obtain ⟨es, us, closing, htook', hes, hclosing⟩ := recognized_expressionList hinner harguments
      have hmethod := Derives.methodCall hderives hdot hkind hopening hes hclosing
      exact .of_call (hemit.took_after ((htook₃.trans htookOpening).trans htook'))
        (by simpa using hmethod) rfl
    | false =>
      obtain ⟨hnext, rfl⟩ := haccept.of_not_accept
      rw [if_neg Bool.false_ne_true] at hread
      refine ⟨.property e name, .call, _, hread.took_after htook₃, ?_, ?_, Precedence.ends_call _,
        fun _ => ?_⟩
      · have hproperty := Derives.property hderives hdot hkind
        simpa using hproperty
      · cases p <;> decide
      · rw [hread.next_kind]
        exact hnext

/-- **A round of the loop takes what follows an operand.** -/
theorem operand_round (hop : Operand p b b') {b₁ : Builder}
    (h : Clean (continueOnce inner p (p = .assignment)) b' true b₁) : Operand p b b₁ := by
  unfold continueOnce at h
  obtain ⟨_, _, hpeek, h⟩ := h.bind_of_cumulative fun token => by
    split <;> infer_instance
  obtain ⟨rfl, rfl⟩ := hpeek.of_peek
  rcases hc : continuation? b'.next.kind with _ | ⟨r, c⟩
  · rw [hc] at h
    exact absurd h.of_pure.1 (by simp)
  · rw [hc] at h
    dsimp only at h
    split at h
    · exact absurd h.of_pure.1 (by simp)
    · next hrank =>
      obtain ⟨token, _, hadvance, h⟩ := h.bind
      obtain ⟨rfl, rfl⟩ := hadvance.of_advance
      obtain ⟨_, b₂, hwith, h⟩ := h.bind
      obtain ⟨-, rfl⟩ := h.of_pure
      have hkind := kind_of_continuation? hc
      have hp : p.rank ≤ r.rank := Nat.not_lt.1 hrank
      -- The token says which operator it is, and each operator has a lemma of its own.
      cases c with
      | binary operand ops => exact operand_binary hinner hc hp hop hwith
      | conjunction =>
        obtain ⟨-, rfl⟩ := hkind
        exact operand_conjunction hinner hc hp hop hwith
      | disjunction =>
        obtain ⟨-, rfl⟩ := hkind
        exact operand_disjunction hinner hc hp hop hwith
      | call =>
        obtain ⟨-, rfl⟩ := hkind
        exact operand_call hinner hc hop hwith
      | subscript =>
        obtain ⟨-, rfl⟩ := hkind
        exact operand_subscript hinner hc hop hwith
      | property =>
        obtain ⟨-, rfl⟩ := hkind
        exact operand_property hinner hc hop hwith

/-- **An expression that was read is one.** -/
theorem recognized_expression (h : Clean (expression inner p) b u b') :
    Recognized b b' (.expression p) := by
  intro hp
  rw [expression_eq] at h
  obtain ⟨token, b₁, hadvance, h⟩ := h.bind
  obtain ⟨rfl, rfl⟩ := hadvance.of_advance
  obtain ⟨_, b₂, hprimary, h⟩ := h.bind
  replace h := h.bind_get
  have heof : b.next.kind ≠ .eof := by
    intro heof
    rw [primary, heof] at hprimary
    exact absurd hprimary Clean.not_fail
  have hop := operand_primary hinner (.of_take heof) hp hprimary
  unfold resume at h
  obtain ⟨_, b₃, hloop, hend⟩ := h.bind
  have hloop' : Clean (repeatWhile (continueOnce inner p (p = .assignment))) b₂ () b₃ := hloop
  obtain ⟨b₄, hop, hround⟩ := hloop'.repeatWhile hop fun b₄ b₅ hop hround =>
    operand_round hinner hop hround
  -- The last round leaves the builder as it is.
  have hstop : b₄ = b₃ ∧ ∀ r c, continuation? b₄.next.kind = some (r, c) → r.rank < p.rank := by
    unfold continueOnce at hround
    obtain ⟨_, _, hpeek, hround⟩ := hround.bind_of_cumulative fun token => by
      split <;> infer_instance
    obtain ⟨rfl, rfl⟩ := hpeek.of_peek
    split at hround
    · next r c hc =>
      split at hround
      · next hrank =>
        obtain ⟨-, rfl⟩ := hround.of_pure
        refine ⟨rfl, fun r' c' hc' => ?_⟩
        rw [hc] at hc'
        obtain ⟨rfl, -⟩ := Prod.mk.inj (Option.some.inj hc')
        exact hrank
      · obtain ⟨_, _, -, hround⟩ := hround.bind
        obtain ⟨_, _, -, hround⟩ := hround.bind
        exact absurd hround.of_pure.1 (by simp)
    · next hc =>
      obtain ⟨-, rfl⟩ := hround.of_pure
      refine ⟨rfl, fun r c hc' => ?_⟩
      rw [hc] at hc'
      simp at hc'
  obtain ⟨rfl, hstop⟩ := hstop
  obtain ⟨e, q, ts, htook, hderives, hpq, -, -⟩ := hop
  have hequal : b₄ = b' ∧ (p = .assignment → b₄.next.kind ≠ .equal) := by
    split at hend
    · obtain ⟨_, _, hpeek, hend⟩ := hend.bind
      obtain ⟨rfl, rfl⟩ := hpeek.of_peek
      split at hend
      · exact absurd hend Clean.not_fail
      · next hne => exact ⟨hend.of_pure.2, fun _ => hne⟩
    · next hne => exact ⟨hend.of_pure.2, fun hp => absurd hp hne⟩
  obtain ⟨rfl, hequal⟩ := hequal
  exact ⟨e, ts, htook, hderives.weaken hpq, hstop, hequal⟩

/-! ## Statements -/

/-- The declarations up to the end of a block, or of the source. -/
theorem recognized_declarations {closing : TokenKind}
    (h : Clean (repeatWhile (blockRound inner closing)) b u b') :
    ∃ ss ts, b.Took ts b' ∧ Derives (.declarations ss) ts ∧
      (b'.next.kind = closing ∨ b'.next.kind = .eof) := by
  -- What was taken becomes a row of declarations with any that follow.
  let I : Builder → Prop := fun b₁ => ∃ ts, b.Took ts b₁ ∧
    ∀ ss us, Derives (.declarations ss) us → ∃ ss', Derives (.declarations ss') (ts ++ us)
  have hstart : I b := ⟨[], .refl b, fun ss us hss => ⟨ss, hss⟩⟩
  obtain ⟨b₁, ⟨ts, htook, hrow⟩, hround⟩ := h.repeatWhile hstart (by
    rintro b₁ b₂ ⟨ts, htook, hrow⟩ hround
    unfold blockRound at hround
    obtain ⟨_, _, hend, hround⟩ := hround.bind
    obtain ⟨hkind, rfl⟩ := hend.of_atEnd
    split at hround
    · exact absurd hround.of_pure.1 (by simp)
    · obtain ⟨_, b₃, hs, hround⟩ := hround.bind
      obtain ⟨-, rfl⟩ := hround.of_pure
      obtain ⟨s, us, htook', hs⟩ := hinner .declaration _ _ hs
      refine ⟨ts ++ us, htook.trans htook', fun ss vs hss => ?_⟩
      rw [List.append_assoc]
      exact hrow _ _ (.declarations hs hss))
  unfold blockRound at hround
  obtain ⟨_, _, hend, hround⟩ := hround.bind
  obtain ⟨hkind, rfl⟩ := hend.of_atEnd
  split at hround
  · next hatEnd =>
    obtain ⟨-, rfl⟩ := hround.of_pure
    obtain ⟨ss, hss⟩ := hrow [] [] .noDeclarations
    rw [List.append_nil] at hss
    refine ⟨ss, ts, htook, hss, ?_⟩
    rw [hatEnd] at hkind
    simpa using hkind
  · obtain ⟨_, _, -, hround⟩ := hround.bind
    exact absurd hround.of_pure.1 (by simp)

/-- A block from behind its opening brace. -/
theorem recognized_block (h : Clean (block inner) b u b') :
    ∃ ss ts closing, b.Took (ts ++ [closing]) b' ∧ Derives (.declarations ss) ts ∧
      closing.kind = .rightBrace := by
  unfold block at h
  obtain ⟨_, b₁, hloop, h⟩ := h.bind
  obtain ⟨closing, b₂, hclosing, h⟩ := h.bind
  obtain ⟨-, rfl⟩ := h.of_pure
  obtain ⟨ss, ts, htook, hss, -⟩ := recognized_declarations hinner hloop
  obtain ⟨hkind, htook'⟩ := hclosing.took_of_expect
  exact ⟨ss, ts, closing, htook.trans htook', hss, hkind⟩

/-- A block with its opening brace, in a scope of its own. -/
theorem recognized_inScope {opening : Token} (hb : b₀.Took [opening] b)
    (hopening : opening.kind = .leftBrace) (h : Clean (inScope (block inner)) b u b') :
    ∃ ss ts, b₀.Took ts b' ∧ Derives (.block ss) ts := by
  rw [clean_inScope] at h
  obtain ⟨_, b₁, hbegin, h⟩ := h.bind
  obtain ⟨_, b₂, hblock, hend⟩ := h.bind
  obtain ⟨ss, ts, closing, htook, hss, hclosing⟩ := recognized_block hinner hblock
  exact ⟨ss, _, hend.took_after ((hbegin.took_after hb).trans htook),
    .block hopening hss hclosing⟩

/-- What stands behind a condition and its block is an alternative, or nothing. -/
theorem recognized_alternative {e : Expr} {ss : List Decl} {ts us : List Token}
    (hb : b₀.Took (ts ++ us) b) (he : Derives (.expression .assignment e) ts)
    (hss : Derives (.block ss) us) (h : Clean (alternative inner) b u b') :
    ∃ s ts, b₀.Took ts b' ∧ Derives (.conditional s) ts := by
  unfold alternative at h
  obtain ⟨other, b₁, haccept, hother⟩ := h.bind
  cases other with
  | false =>
    obtain ⟨-, rfl⟩ := haccept.of_not_accept
    obtain ⟨-, rfl⟩ := hother.of_pure
    exact ⟨_, _, hb, .ifThen he hss⟩
  | true =>
    obtain ⟨keyword, hkeyword, htook⟩ := haccept.took_of_accept (by simp)
    rw [if_pos rfl] at hother
    obtain ⟨again, b₂, haccept', hagain⟩ := hother.bind
    cases again with
    | true =>
      obtain ⟨keyword', hkeyword', htook'⟩ := haccept'.took_of_accept (by simp)
      obtain ⟨s, vs, htook'', hs⟩ := hinner .conditional _ _ hagain
      have hif := Derives.ifElse he hss hkeyword (.elseIf hkeyword' hs)
      exact ⟨_, _, (hb.trans htook).trans (htook'.trans htook''), by simpa using hif⟩
    | false =>
      obtain ⟨-, rfl⟩ := haccept'.of_not_accept
      obtain ⟨opening, b₃, hopening, hblock⟩ := hagain.bind
      obtain ⟨hkind, htook'⟩ := hopening.took_of_expect
      obtain ⟨ss', vs, htook'', hss'⟩ := recognized_inScope hinner htook' hkind hblock
      have hif := Derives.ifElse he hss hkeyword (.elseBlock hss')
      exact ⟨_, _, (hb.trans htook).trans htook'', by simpa using hif⟩

/-- What is read as a conditional is one. -/
theorem recognized_conditional (h : Clean (conditional inner) b u b') :
    Recognized b b' .conditional := by
  unfold conditional at h
  obtain ⟨_, b₁, he, h⟩ := h.bind
  obtain ⟨line, b₂, hline, h⟩ := h.bind
  obtain ⟨opening, b₃, hopening, h⟩ := h.bind
  obtain ⟨toElse, b₄, hjump, h⟩ := h.bind
  obtain ⟨_, b₅, hpop, h⟩ := h.bind
  obtain ⟨_, b₆, hblock, h⟩ := h.bind
  obtain ⟨toEnd, b₇, hjump', h⟩ := h.bind
  obtain ⟨_, b₈, hland, h⟩ := h.bind
  obtain ⟨_, b₉, halternative, hpatch⟩ := h.bind
  obtain ⟨e, ts, htook, he, -⟩ := recognized_any hinner he
  obtain ⟨hkind, htook'⟩ := hopening.took_of_expect
  obtain ⟨ss, us, htook'', hss⟩ := recognized_inScope hinner
    (hpop.took_after (hjump.took_after htook')) hkind hblock
  have hfront := (hline.took_after htook).trans htook''
  obtain ⟨s, vs, hall, hs⟩ := recognized_alternative hinner
    (hland.took_after (hjump'.took_after hfront)) he hss halternative
  exact ⟨s, vs, hpatch.took_after hall, hs⟩

/-- What is read as a loop is one. -/
theorem recognized_loop (hb : b₀.Took [t] b) (ht : t.kind = .whileKw)
    (h : Clean (whileLoop inner) b u b') : Recognized b₀ b' .declaration := by
  unfold whileLoop at h
  obtain ⟨start, b₁, hstart, h⟩ := h.bind
  obtain ⟨_, b₂, he, h⟩ := h.bind
  obtain ⟨line, b₃, hline, h⟩ := h.bind
  obtain ⟨opening, b₄, hopening, h⟩ := h.bind
  obtain ⟨toEnd, b₅, hjump, h⟩ := h.bind
  obtain ⟨_, b₆, hpop, h⟩ := h.bind
  obtain ⟨_, b₇, hblock, hrest⟩ := h.bind
  obtain ⟨e, ts, htook, he, -⟩ := recognized_any hinner he
  obtain ⟨hkind, htook'⟩ := hopening.took_of_expect
  obtain ⟨ss, us, htook'', hss⟩ := recognized_inScope hinner
    (hpop.took_after (hjump.took_after htook')) hkind hblock
  have hfront := hline.took_after ((hstart.took_after hb).trans htook)
  exact ⟨_, _, hrest.took_after (hfront.trans htook''), .loop ht he hss⟩

omit [∀ p, Cumulative (inner p)] in
/-- What is read as a `print` statement is one. -/
theorem recognized_print (hb : b₀.Took [t] b) (ht : t.kind = .printKw)
    (h : Clean (printStatement inner t) b u b') : Recognized b₀ b' .declaration := by
  unfold printStatement at h
  obtain ⟨_, b₁, he, h⟩ := h.bind
  obtain ⟨semicolon, b₂, hsemicolon, hemit⟩ := h.bind
  obtain ⟨e, ts, htook, he, -⟩ := recognized_any hinner he
  obtain ⟨hkind, htook'⟩ := hsemicolon.took_of_expect
  exact ⟨_, _, hemit.took_after ((hb.trans htook).trans htook'), .print ht he hkind⟩

/-- What is read as a `return` statement is one. -/
theorem recognized_return (hb : b₀.Took [t] b) (ht : t.kind = .returnKw)
    (h : Clean (returnStatement inner t) b u b') : Recognized b₀ b' .declaration := by
  have hvalue : ∀ b₁, Clean (do
      if ← accept .semicolon then emitReturn
      else
        anyExpression inner
        let _ ← expect .semicolonAfterReturn
        emitAt .ret t.line) b₁ u b' → b₀.Took [t] b₁ → Recognized b₀ b' .declaration := by
    intro b₁ h hb
    obtain ⟨empty, b₂, haccept, hrest⟩ := h.bind
    cases empty with
    | true =>
      obtain ⟨semicolon, hkind, htook⟩ := haccept.took_of_accept (by simp)
      rw [if_pos rfl] at hrest
      exact ⟨_, _, hrest.took_after (hb.trans htook), .leave ht hkind⟩
    | false =>
      obtain ⟨-, rfl⟩ := haccept.of_not_accept
      obtain ⟨_, b₃, he, hrest⟩ := hrest.bind
      obtain ⟨semicolon, b₄, hsemicolon, hemit⟩ := hrest.bind
      obtain ⟨e, ts, htook, he, -⟩ := recognized_any hinner he
      obtain ⟨hkind, htook'⟩ := hsemicolon.took_of_expect
      exact ⟨_, _, hemit.took_after ((hb.trans htook).trans htook'), .leaveWith ht he hkind⟩
  unfold returnStatement at h
  replace h := h.bind_get
  split at h
  · exact absurd h Clean.not_fail
  · exact absurd h Clean.not_fail
  · exact hvalue b h hb
  · exact hvalue b h hb

omit [∀ p, Cumulative (inner p)] in
/-- What is read as an expression statement is one. -/
theorem recognized_expressionStatement (h : Clean (expressionStatement inner) b u b') :
    Recognized b b' .declaration := by
  unfold expressionStatement at h
  obtain ⟨_, b₁, he, h⟩ := h.bind
  obtain ⟨semicolon, b₂, hsemicolon, hemit⟩ := h.bind
  obtain ⟨e, ts, htook, he, -⟩ := recognized_any hinner he
  obtain ⟨hkind, htook'⟩ := hsemicolon.took_of_expect
  exact ⟨_, _, hemit.took_after (htook.trans htook'), .expression he hkind⟩

/-- **A statement that was read is one.** -/
theorem recognized_statement (h : Clean (statement inner) b u b') :
    Recognized b b' .declaration := by
  unfold statement at h
  obtain ⟨_, _, hpeek, h⟩ := h.bind_of_cumulative fun token => by
    split <;> infer_instance
  obtain ⟨rfl, rfl⟩ := hpeek.of_peek
  split at h
  · next hkind =>
    obtain ⟨_, _, hadvance, h⟩ := h.bind
    obtain ⟨-, rfl⟩ := hadvance.of_advance
    exact recognized_print hinner (.of_take (by simp [hkind])) hkind h
  · next hkind =>
    obtain ⟨_, _, hadvance, h⟩ := h.bind
    obtain ⟨-, rfl⟩ := hadvance.of_advance
    obtain ⟨s, ts, htook, hs⟩ := hinner .conditional _ _ h
    have hkeyword : b.Took [b.next] b.take := .of_take (by simp [hkind])
    exact ⟨s, _, hkeyword.trans htook, .conditional hkind hs⟩
  · next hkind =>
    obtain ⟨_, _, hadvance, h⟩ := h.bind
    obtain ⟨-, rfl⟩ := hadvance.of_advance
    exact recognized_loop hinner (.of_take (by simp [hkind])) hkind h
  · next hkind =>
    obtain ⟨_, _, hadvance, h⟩ := h.bind
    obtain ⟨-, rfl⟩ := hadvance.of_advance
    exact recognized_return hinner (.of_take (by simp [hkind])) hkind h
  · next hkind =>
    obtain ⟨_, _, hadvance, h⟩ := h.bind
    obtain ⟨-, rfl⟩ := hadvance.of_advance
    obtain ⟨ss, ts, htook, hss⟩ := recognized_inScope hinner (.of_take (by simp [hkind])) hkind h
    exact ⟨_, ts, htook, .blockStatement hss⟩
  · exact recognized_expressionStatement hinner h

/-! ## Variables and functions -/

omit hinner [∀ p, Cumulative (inner p)] in
/-- The name of a variable is taken. -/
theorem Clean.took_of_variableName {name? : Option UInt8} (h : Clean variableName b name? b') :
    ∃ name, name.kind = .identifier ∧ b.Took [name] b' := by
  unfold variableName at h
  obtain ⟨name, b₁, hname, hrest⟩ := h.bind
  obtain ⟨hkind, htook⟩ := hname.took_of_expect
  exact ⟨name, hkind, hrest.took_after htook⟩

/-- What is read as the declaration of a variable is one. -/
theorem recognized_variable (hb : b₀.Took [t] b) (ht : t.kind = .varKw)
    (h : Clean (variableDeclaration inner) b u b') : Recognized b₀ b' .declaration := by
  unfold variableDeclaration at h
  obtain ⟨name?, b₁, hname, h⟩ := h.bind
  obtain ⟨name, hkind, htookName⟩ := hname.took_of_variableName
  have hfront := hb.trans htookName
  obtain ⟨assigned, b₂, haccept, hrest⟩ := h.bind
  cases assigned with
  | true =>
    obtain ⟨sign, hsign, htookSign⟩ := haccept.took_of_accept (by simp)
    obtain ⟨_, b₃, he, hrest⟩ := hrest.bind
    obtain ⟨semicolon, b₄, hsemicolon, hdefine⟩ := hrest.bind
    obtain ⟨e, ts, htook, he, -⟩ := recognized_any hinner he
    obtain ⟨hend, htookEnd⟩ := hsemicolon.took_of_expect
    have hall := ((hfront.trans htookSign).trans htook).trans htookEnd
    exact ⟨_, _, hdefine.took_after hall, .varWith ht hkind hsign he hend⟩
  | false =>
    obtain ⟨-, rfl⟩ := haccept.of_not_accept
    obtain ⟨_, b₃, hemit, hrest⟩ := hrest.bind
    obtain ⟨semicolon, b₄, hsemicolon, hdefine⟩ := hrest.bind
    obtain ⟨hend, htookEnd⟩ := hsemicolon.took_of_expect
    have hall := (hemit.took_after hfront).trans htookEnd
    exact ⟨_, _, hdefine.took_after hall, .var ht hkind hend⟩

omit hinner [∀ p, Cumulative (inner p)] in
/-- A parameter, with the comma behind it if there is one. -/
theorem Clean.took_of_parameter {more : Bool} (h : Clean parameter b more b') :
    ∃ name, name.kind = .identifier ∧
      if more then ∃ comma, comma.kind = .comma ∧
        b.Took [name, comma] b' else b.Took [name] b' := by
  unfold parameter at h
  replace h := h.bind_get
  dsimp only at h
  split at h
  · obtain ⟨_, _, -, h⟩ := h.bind
    obtain ⟨_, _, hfail, -⟩ := h.bind
    exact absurd hfail Clean.not_fail
  · obtain ⟨_, b₁, hcount, h⟩ := h.bind
    obtain ⟨name?, b₂, hname, h⟩ := h.bind
    obtain ⟨_, b₃, hdefine, haccept⟩ := h.bind
    obtain ⟨name, hkind, htook⟩ := hname.took_of_variableName
    have hfront : b.Took [name] b₃ :=
      hdefine.took_after (hcount.took_of_silent.trans htook)
    refine ⟨name, hkind, ?_⟩
    cases more with
    | true =>
      obtain ⟨comma, hcomma, htookComma⟩ := haccept.took_of_accept (by simp)
      exact ⟨comma, hcomma, hfront.trans htookComma⟩
    | false =>
      obtain ⟨-, rfl⟩ := haccept.of_not_accept
      exact hfront

omit hinner [∀ p, Cumulative (inner p)] in
/-- What is read as names of parameters is names. -/
theorem recognized_names (h : Clean (repeatWhile parameter) b u b') :
    ∃ ns ts, b.Took ts b' ∧ Derives (.names ns) ts := by
  -- What was taken becomes a list of names with any that follow.
  let I : Builder → Prop := fun b₁ => ∃ ts, b.Took ts b₁ ∧
    ∀ ns us, Derives (.names ns) us → ∃ ms, Derives (.names ms) (ts ++ us)
  have hstart : I b := ⟨[], .refl b, fun ns us hns => ⟨ns, hns⟩⟩
  obtain ⟨b₁, ⟨ts, htook, hlist⟩, hround⟩ := h.repeatWhile hstart (by
    rintro b₁ b₂ ⟨ts, htook, hlist⟩ hround
    obtain ⟨name, hkind, comma, hcomma, htookName⟩ := hround.took_of_parameter
    refine ⟨ts ++ [name, comma], htook.trans htookName, fun ns us hns => ?_⟩
    rw [List.append_assoc]
    exact hlist _ _ (.moreNames hkind hcomma hns))
  obtain ⟨name, hkind, htookName⟩ := hround.took_of_parameter
  obtain ⟨ns, hns⟩ := hlist _ _ (.lastName hkind)
  exact ⟨ns, _, htook.trans htookName, hns⟩

omit hinner [∀ p, Cumulative (inner p)] in
/-- What is read as parameters is names in parentheses. -/
theorem recognized_parameters (h : Clean parameters b u b') :
    ∃ ns ts, b.Took ts b' ∧ Derives (.parameters ns) ts := by
  unfold parameters at h
  obtain ⟨opening, b₁, hopening, h⟩ := h.bind
  obtain ⟨empty, b₂, hcheck, h⟩ := h.bind
  obtain ⟨-, rfl⟩ := hcheck.of_check
  obtain ⟨hopeningKind, htookOpening⟩ := hopening.took_of_expect
  cases empty with
  | true =>
    rw [if_neg (by simp)] at h
    obtain ⟨closing, b₃, hclosing, h⟩ := h.bind
    obtain ⟨-, rfl⟩ := h.of_pure
    obtain ⟨hclosingKind, htookClosing⟩ := hclosing.took_of_expect
    exact ⟨[], _, htookOpening.trans htookClosing, .noParameters hopeningKind hclosingKind⟩
  | false =>
    rw [if_pos (by simp)] at h
    obtain ⟨_, b₃, hnames, h⟩ := h.bind
    obtain ⟨closing, b₄, hclosing, h⟩ := h.bind
    obtain ⟨-, rfl⟩ := h.of_pure
    obtain ⟨ns, ts, htook, hns⟩ := recognized_names hnames
    obtain ⟨hclosingKind, htookClosing⟩ := hclosing.took_of_expect
    exact ⟨ns, _, (htookOpening.trans htook).trans htookClosing,
      .parameters hopeningKind hns hclosingKind⟩

/-- A function from behind its name. -/
theorem recognized_function {name : String} {kind : FunctionKind} {hasParameters : Bool}
    (h : Clean (function inner name kind hasParameters) b u b') :
    ∃ ns ts ss us, b.Took (ts ++ us) b' ∧ Derives (.block ss) us ∧
      if hasParameters then Derives (.parameters ns) ts else ts = [] := by
  unfold function at h
  obtain ⟨line, b₁, hline, h⟩ := h.bind
  obtain ⟨_, b₂, hbegin, h⟩ := h.bind
  rw [clean_attempt, Parsed.functionBody_eq] at h
  obtain ⟨_, b₃, hbody, hrest⟩ := h.bind
  obtain ⟨_, b₄, hscope, hbody⟩ := hbody.bind
  obtain ⟨_, b₅, hparameters, hbody⟩ := hbody.bind
  obtain ⟨opening, b₆, hopening, hblock⟩ := hbody.bind
  obtain ⟨hkind, htookOpening⟩ := hopening.took_of_expect
  obtain ⟨ss, us, closing, htook, hss, hclosing⟩ := recognized_block hinner hblock
  have hfront : b.Took [] b₄ := hscope.took_after (hbegin.took_after hline.took_of_silent)
  have hbraces : b₅.Took (opening :: (us ++ [closing])) b' :=
    hrest.took_after (htookOpening.trans htook)
  have hderives : Derives (.block ss) (opening :: (us ++ [closing])) := .block hkind hss hclosing
  unfold Parsed.optionalParameters at hparameters
  cases hasParameters with
  | true =>
    obtain ⟨ns, ts, htookNames, hns⟩ := recognized_parameters hparameters
    exact ⟨ns, ts, ss, _, (hfront.trans htookNames).trans hbraces, hderives, hns⟩
  | false =>
    obtain ⟨-, rfl⟩ := hparameters.of_pure
    exact ⟨[], [], ss, _, hfront.trans hbraces, hderives, rfl⟩

/-- What is read as the declaration of a function is one. -/
theorem recognized_functionDeclaration (hb : b₀.Took [t] b) (ht : t.kind = .funcKw)
    (h : Clean (functionDeclaration inner) b u b') : Recognized b₀ b' .declaration := by
  unfold functionDeclaration at h
  obtain ⟨name?, b₁, hname, h⟩ := h.bind
  replace h := h.bind_get
  dsimp only at h
  obtain ⟨_, b₂, hmark, h⟩ := h.bind
  obtain ⟨_, b₃, hfunction, hdefine⟩ := h.bind
  obtain ⟨name, hkind, htookName⟩ := hname.took_of_variableName
  obtain ⟨ns, ts, ss, us, htook, hss, hns⟩ := recognized_function hinner hfunction
  have hall := (hmark.took_after (hb.trans htookName)).trans htook
  rw [if_pos rfl] at hns
  have hfunc := Derives.func ht hkind hns hss
  exact ⟨_, _, hdefine.took_after hall, by simpa using hfunc⟩

/-! ## Classes -/

/-- What is read as a member is one. -/
theorem recognized_member (h : Clean (member inner) b u b') :
    ∃ m ts, b.Took ts b' ∧ Derives (.member m) ts := by
  unfold member at h
  obtain ⟨computed, b₁, haccept, hrest⟩ := h.bind
  cases computed with
  | true =>
    obtain ⟨keyword, hkeyword, htookKeyword⟩ := haccept.took_of_accept (by simp)
    obtain ⟨name, b₂, hname, hrest⟩ := hrest.bind
    obtain ⟨index, b₃, hindex, hrest⟩ := hrest.bind
    obtain ⟨_, b₄, hfunction, hemit⟩ := hrest.bind
    obtain ⟨hkind, htookName⟩ := hname.took_of_expect
    obtain ⟨ns, ts, ss, us, htook, hss, rfl⟩ := recognized_function hinner hfunction
    have hall := (hindex.took_after (htookKeyword.trans htookName)).trans htook
    exact ⟨_, _, hemit.took_after hall, .computed hkeyword hkind hss⟩
  | false =>
    obtain ⟨-, rfl⟩ := haccept.of_not_accept
    obtain ⟨name, b₂, hname, hrest⟩ := hrest.bind
    obtain ⟨index, b₃, hindex, hrest⟩ := hrest.bind
    obtain ⟨_, b₄, hfunction, hemit⟩ := hrest.bind
    obtain ⟨hkind, htookName⟩ := hname.took_of_expect
    obtain ⟨ns, ts, ss, us, htook, hss, hns⟩ := recognized_function hinner hfunction
    have hall := (hindex.took_after htookName).trans htook
    rw [if_pos rfl] at hns
    have hmethod := Derives.method hkind hns hss
    exact ⟨_, _, hemit.took_after hall, by simpa using hmethod⟩

/-- What is read as members is members. -/
theorem recognized_members (h : Clean (repeatWhile (memberRound inner)) b u b') :
    ∃ ms ts, b.Took ts b' ∧ Derives (.members ms) ts := by
  -- What was taken becomes a row of members with any that follow.
  let I : Builder → Prop := fun b₁ => ∃ ts, b.Took ts b₁ ∧
    ∀ ms us, Derives (.members ms) us → ∃ ms', Derives (.members ms') (ts ++ us)
  have hstart : I b := ⟨[], .refl b, fun ms us hms => ⟨ms, hms⟩⟩
  obtain ⟨b₁, ⟨ts, htook, hrow⟩, hround⟩ := h.repeatWhile hstart (by
    rintro b₁ b₂ ⟨ts, htook, hrow⟩ hround
    unfold memberRound at hround
    obtain ⟨_, _, hend, hround⟩ := hround.bind
    obtain ⟨-, rfl⟩ := hend.of_atEnd
    split at hround
    · exact absurd hround.of_pure.1 (by simp)
    · obtain ⟨_, b₃, hmember, hround⟩ := hround.bind
      obtain ⟨-, rfl⟩ := hround.of_pure
      obtain ⟨m, us, htookMember, hm⟩ := recognized_member hinner hmember
      refine ⟨ts ++ us, htook.trans htookMember, fun ms vs hms => ?_⟩
      rw [List.append_assoc]
      exact hrow _ _ (.members hm hms))
  unfold memberRound at hround
  obtain ⟨_, _, hend, hround⟩ := hround.bind
  obtain ⟨-, rfl⟩ := hend.of_atEnd
  split at hround
  · obtain ⟨-, rfl⟩ := hround.of_pure
    obtain ⟨ms, hms⟩ := hrow [] [] .noMembers
    rw [List.append_nil] at hms
    exact ⟨ms, ts, htook, hms⟩
  · obtain ⟨_, _, -, hround⟩ := hround.bind
    exact absurd hround.of_pure.1 (by simp)

omit hinner [∀ p, Cumulative (inner p)] in
/-- The superclass of a class, if it has one. -/
theorem recognized_superclass {name : Token} (h : Clean (Parsed.optionalSuperclass name) b u b') :
    b.Took [] b' ∨ ∃ colon parent, colon.kind = .colon ∧ parent.kind = .identifier ∧
      b.Took [colon, parent] b' := by
  unfold Parsed.optionalSuperclass at h
  obtain ⟨derived, b₁, haccept, hrest⟩ := h.bind
  cases derived with
  | false =>
    obtain ⟨-, rfl⟩ := haccept.of_not_accept
    obtain ⟨-, rfl⟩ := hrest.of_pure
    exact .inl (.refl _)
  | true =>
    obtain ⟨colon, hcolon, htookColon⟩ := haccept.took_of_accept (by simp)
    rw [if_pos rfl, superclass] at hrest
    obtain ⟨parent, b₂, hparent, hrest⟩ := hrest.bind
    obtain ⟨hkind, htook⟩ := hparent.took_of_expect
    exact .inr ⟨colon, parent, hcolon, hkind, hrest.took_after (htookColon.trans htook)⟩

/-- What is read as the declaration of a class is one. -/
theorem recognized_class (hb : b₀.Took [t] b) (ht : t.kind = .classKw)
    (h : Clean (classDeclaration inner) b u b') : Recognized b₀ b' .declaration := by
  unfold classDeclaration at h
  obtain ⟨name, b₁, hname, h⟩ := h.bind
  obtain ⟨index, b₂, hindex, h⟩ := h.bind
  obtain ⟨_, b₃, hdeclare, h⟩ := h.bind
  obtain ⟨_, b₄, hemit, h⟩ := h.bind
  replace h := h.bind_get
  obtain ⟨_, b₅, hdefine, h⟩ := h.bind
  obtain ⟨_, b₆, hbegin, h⟩ := h.bind
  rw [clean_attempt_last, Parsed.classBody_eq] at h
  obtain ⟨_, b₇, hbody, hend⟩ := h.bind
  obtain ⟨_, b₈, hparent, hbody⟩ := hbody.bind
  obtain ⟨_, b₉, hread, hbody⟩ := hbody.bind
  obtain ⟨opening, c₁, hopening, hbody⟩ := hbody.bind
  obtain ⟨_, c₂, hmembers, hbody⟩ := hbody.bind
  obtain ⟨closing, c₃, hclosing, hpop⟩ := hbody.bind
  obtain ⟨hkind, htookName⟩ := hname.took_of_expect
  obtain ⟨hopeningKind, htookOpening⟩ := hopening.took_of_expect
  obtain ⟨ms, ts, htookMembers, hms⟩ := recognized_members hinner hmembers
  obtain ⟨hclosingKind, htookClosing⟩ := hclosing.took_of_expect
  have hfront : b₀.Took [t, name] b₆ := hbegin.took_after (hdefine.took_after
    (hemit.took_after (hdeclare.took_after (hindex.took_after (hb.trans htookName)))))
  have hbraces : b₉.Took (opening :: (ts ++ [closing])) b' :=
    hend.took_after (hpop.took_after (htookOpening.trans (htookMembers.trans htookClosing)))
  rcases recognized_superclass hparent with htook | ⟨colon, parent, hcolon, hparentKind, htook⟩
  · exact ⟨_, _, (hread.took_after (hfront.trans htook)).trans hbraces,
      .classDecl ht hkind hopeningKind hms hclosingKind⟩
  · exact ⟨_, _, (hread.took_after (hfront.trans htook)).trans hbraces,
      .derivedClass ht hkind hcolon hparentKind hopeningKind hms hclosingKind⟩

/-! ## All phrases -/

/-- What is read as a declaration is one. -/
theorem recognized_declaration (h : Clean (declaration inner) b u b') :
    Recognized b b' .declaration := by
  rw [clean_declaration] at h
  unfold tryDeclaration at h
  obtain ⟨_, _, hpeek, h⟩ := h.bind_of_cumulative fun token => by
    split <;> infer_instance
  obtain ⟨rfl, rfl⟩ := hpeek.of_peek
  split at h
  · next hkind =>
    obtain ⟨_, _, hadvance, h⟩ := h.bind
    obtain ⟨-, rfl⟩ := hadvance.of_advance
    exact recognized_class hinner (.of_take (by simp [hkind])) hkind h
  · next hkind =>
    obtain ⟨_, _, hadvance, h⟩ := h.bind
    obtain ⟨-, rfl⟩ := hadvance.of_advance
    exact recognized_functionDeclaration hinner (.of_take (by simp [hkind])) hkind h
  · next hkind =>
    obtain ⟨_, _, hadvance, h⟩ := h.bind
    obtain ⟨-, rfl⟩ := hadvance.of_advance
    exact recognized_variable hinner (.of_take (by simp [hkind])) hkind h
  · exact recognized_statement hinner h

end

/-- **What is read cleanly is a phrase.** -/
theorem recognizes_phrase (depth : Nat) : Recognizes (phrase depth) := by
  induction depth with
  | zero =>
    intro p b b' h
    unfold phrase at h
    obtain ⟨_, _, _, hfail⟩ := h.bind
    exact absurd hfail Clean.not_fail
  | succ depth ih =>
    intro p b b' h
    cases p with
    | declaration => exact recognized_declaration ih h
    | conditional => exact recognized_conditional ih h
    | expression q => exact recognized_expression ih h

end Build

end ScriptVM
