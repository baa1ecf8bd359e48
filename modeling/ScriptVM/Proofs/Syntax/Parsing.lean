/-
# Phrases are read as their trees say

In front of the tokens of a phrase, and then of something that can follow it, reading the phrase has
the same clean runs as the code of its tree, and stops behind its last token.

An expression is read by a loop around an operand: the loop goes on as long as the next token binds
tightly enough.  In front of the tokens of an expression the loop comes to the point behind them,
with the code of its tree built (`Leads`), and the next token then says whether it goes on from
there (`Follows`).  This is what is shown by induction on the rules of the grammar, for every level
from which the expression can have been asked for.

Nothing is ever nested deeper than it has tokens, and no loop goes round more often, so the bounds
on both are never met.

Main statements: `Derives.parsed` for every phrase, and `parses_declarations` for a whole source.
-/
import ScriptVM.Proofs.Syntax.Reading

namespace ScriptVM

/-! ## Levels -/

namespace Precedence

/-- The levels whose operators group to the left. -/
def groupsLeft : Precedence → Bool
  | .equality | .comparison | .term | .factor | .call => true
  | .assignment | .or | .and | .unary => false

/-- An expression of a level ends in front of a token of a kind. -/
def Ends (level : Precedence) (kind : TokenKind) : Prop :=
  ∀ r c, continuation? kind = some (r, c) → r.rank < level.rank ∨ r = level ∧ level.groupsLeft

theorem rank_le_tighter (p : Precedence) : p.rank ≤ p.tighter.rank := by
  cases p <;> decide

/-- A token that ends a level ends the next tighter one. -/
theorem Ends.tighter {p : Precedence} {kind : TokenKind} (h : p.Ends kind) :
    p.tighter.Ends kind := by
  intro r c hc
  have hr := h r c hc
  cases p <;> cases r <;> revert hr <;> decide

/-- In front of a token that goes on at the level of an operator, its second operand ends. -/
theorem Ends.rank_lt_tighter {p r : Precedence} {kind : TokenKind} {c : Continuation}
    (h : p.Ends kind) (hp : p ≠ .call) (hc : continuation? kind = some (r, c)) :
    r.rank < p.tighter.rank := by
  have hr := h r c hc
  cases p <;> cases r <;> revert hr hp <;> decide

/-- A sign behind an operand that has come to its end binds less tightly. -/
theorem Ends.rank_lt {p r : Precedence} {kind : TokenKind} {c : Continuation} (h : p.Ends kind)
    (hp : p.groupsLeft = false) (hc : continuation? kind = some (r, c)) : r.rank < p.rank := by
  rcases h r c hc with hlt | ⟨-, hleft⟩
  · exact hlt
  · rw [hp] at hleft
    exact absurd hleft Bool.false_ne_true

/-- An opening parenthesis ends no operand, except of a call. -/
theorem Ends.ne_leftParen {p : Precedence} {kind : TokenKind} (h : p.Ends kind) (hp : p ≠ .call) :
    kind ≠ .leftParen := by
  rintro rfl
  have hr := h .call .call rfl
  cases p <;> revert hr hp <;> decide

/-- An operator ends the operands that bind tighter than it does. -/
theorem ends_of_continuation? {p q : Precedence} {kind : TokenKind} {c : Continuation}
    (h : continuation? kind = some (q, c)) (hq : q.rank < p.rank) : p.Ends kind := by
  intro r c' hr
  obtain ⟨rfl, -⟩ := Prod.mk.inj (Option.some.inj (h.symm.trans hr))
  exact .inl hq

/-- A token that continues no expression ends every operand. -/
theorem ends_of_none {p : Precedence} {kind : TokenKind} (h : continuation? kind = none) :
    p.Ends kind := by
  intro r c hc
  rw [h] at hc
  simp at hc

theorem ends_call (kind : TokenKind) : Precedence.call.Ends kind := by
  intro r c _
  cases r <;> decide

/-- An operator of a level goes on with an operand of the next level. -/
theorem continuation?_of_mem_signs {p : Precedence} {kind : TokenKind} (h : kind ∈ p.signs) :
    continuation? kind = some (p, .binary p.tighter (Build.signOps kind)) := by
  cases p <;> simp only [signs, List.mem_cons, List.not_mem_nil, or_false] at h
  all_goals rcases h with rfl | rfl | rfl | rfl <;> rfl

end Precedence

/-- What can stand behind an expression of a level: a token that does not go on with it. -/
def Follows (level : Precedence) (e : Expr) (rest : List Token) : Prop :=
  ∃ t us, rest = t :: us ∧ level.Ends t.kind ∧ t.kind ≠ .equal ∧
    (e.isProperty = true → t.kind ≠ .leftParen)

theorem Follows.tighter {p : Precedence} {e : Expr} {rest : List Token} (h : Follows p e rest) :
    Follows p.tighter e rest := by
  obtain ⟨t, us, hrest, hends, hequal, hparen⟩ := h
  exact ⟨t, us, hrest, hends.tighter, hequal, hparen⟩

/-- Behind an operand stands what stands behind the whole. -/
theorem Follows.operand {p q : Precedence} {e e' : Expr} {rest : List Token} (h : Follows p e rest)
    (hp : p ≠ .call) (hq : ∀ kind, p.Ends kind → q.Ends kind) : Follows q e' rest := by
  obtain ⟨t, us, hrest, hends, hequal, -⟩ := h
  exact ⟨t, us, hrest, hq _ hends, hequal, fun _ => hends.ne_leftParen hp⟩

/-- An operator can follow an operand that it ends. -/
theorem follows_sign {p : Precedence} {e : Expr} {sign : Token} {us : List Token}
    (hends : p.Ends sign.kind) (hp : p ≠ .call) (hsign : sign.kind ≠ .equal) :
    Follows p e (sign :: us) :=
  ⟨sign, us, rfl, hends, hsign, fun _ => hends.ne_leftParen hp⟩

/-- A token that continues nothing and assigns nothing can follow any expression. -/
theorem follows_of_none {p : Precedence} {e : Expr} {t : Token} {us : List Token}
    (h : continuation? t.kind = none) (hequal : t.kind ≠ .equal) : Follows p e (t :: us) := by
  refine ⟨t, us, rfl, Precedence.ends_of_none h, hequal, fun _ hparen => ?_⟩
  rw [hparen] at h
  simp [continuation?] at h

namespace Build

variable {α β : Type}

/-! ## The loop of an expression -/

/-- The rest of an expression from behind an operand. -/
def resume (inner : Phrase → Build Unit) (least : Precedence) (items : List ScanItem) :
    Build Unit := do
  repeatOver (continueOnce inner least (least = .assignment)) items
  if least = .assignment then
    let next ← peek
    if next.kind = .equal then fail next .invalidAssignmentTarget

/-- An expression is read by taking a token, reading its primary expression and then what continues
it. -/
theorem expression_eq (inner : Phrase → Build Unit) (least : Precedence) :
    expression inner least = (do
      let token ← advance
      primary inner token (least = .assignment)
      resume inner least (← get).pending) := by
  unfold expression resume repeatWhile
  simp only [bind_assoc]

instance (inner : Phrase → Build Unit) [∀ p, Cumulative (inner p)] (least : Precedence)
    (items : List ScanItem) : Cumulative (resume inner least items) := by
  unfold resume
  infer_instance

section

variable {inner : Phrase → Build Unit} [∀ p, Cumulative (inner p)] {least : Precedence}
  {items : List ScanItem} {t : Token} {ts us rest : List Token} {y : Build Unit}

/-- An expression starts with an operand. -/
theorem Leads.operand (ht : t.kind ≠ .eof)
    (h : Parses (primary inner t (least = .assignment)) y us rest) :
    Leads (expression inner least) (do pass; y) (resume inner least (rest.map .ok)) (t :: us)
      rest where
  runs b hb u b' := by
    have hb' := hb.take ht
    rw [expression_eq, clean_congr (bind_of_ok (advance_of_reads hb)), clean_bind_iff]
    constructor
    · rintro ⟨_, b₁, hx, hz⟩
      have hy := (h.runs _ hb' () b₁).1 hx
      have hpending : b₁.pending = rest.map .ok := h.ends _ hb' () b₁ hy
      refine ⟨b₁, (clean_congr (bind_of_ok (pass_of_reads hb)) _ _).2 hy, ?_⟩
      rw [← hpending]
      exact hz
    · rintro ⟨b₁, hy, hz⟩
      rw [clean_congr (bind_of_ok (pass_of_reads hb))] at hy
      have hpending : b₁.pending = rest.map .ok := h.ends _ hb' () b₁ hy
      refine ⟨(), b₁, (h.runs _ hb' () b₁).2 hy, ?_⟩
      rw [← hpending] at hz
      exact hz
  ends b hb b₁ hy := by
    rw [clean_congr (bind_of_ok (pass_of_reads hb))] at hy
    exact h.ends _ (hb.take ht) () b₁ hy

/-- One round of the loop: the next token goes on with the expression. -/
theorem Leads.round {q : Precedence} {c : Continuation} {item : ScanItem}
    (hc : continuation? t.kind = some (q, c)) (hq : least.rank ≤ q.rank)
    (h : Parses (continueWith inner t (least = .assignment) c) y us rest) [Cumulative y] :
    Leads (resume inner least (item :: items)) (do pass; y) (resume inner least items) (t :: us)
      rest := by
  have heof : t.kind ≠ .eof := by
    intro heof
    rw [heof] at hc
    simp [continuation?] at hc
  have hround : Parses (continueOnce inner least (least = .assignment))
      (do (do pass; y); return true) (t :: us) rest := by
    unfold continueOnce
    refine .peek rfl ?_
    rw [hc, bind_assoc]
    dsimp only
    rw [if_neg (Nat.not_lt.2 hq)]
    exact .advance heof h.bind_done
  unfold resume
  rw [repeatOver, bind_assoc]
  exact .of_true hround

omit [∀ p, Cumulative (inner p)] in
/-- The loop stops in front of a token that does not go on with the expression. -/
theorem resume_of_reads {item : ScanItem} {b : Builder} (hb : b.Reads (t :: us))
    (hc : ∀ r c, continuation? t.kind = some (r, c) → r.rank < least.rank)
    (hequal : t.kind ≠ .equal) : resume inner least (item :: items) b = .ok () b := by
  have hround : continueOnce inner least (least = .assignment) b = .ok false b := by
    unfold continueOnce
    rw [bind_of_ok (peek_of_reads hb)]
    rcases hnext : continuation? t.kind with _ | ⟨r, c⟩
    · rfl
    · dsimp only
      rw [if_pos (hc r c hnext)]
      rfl
  unfold resume
  rw [repeatOver, bind_assoc, bind_of_ok hround, if_neg Bool.false_ne_true, pure_bind]
  by_cases hleast : least = .assignment
  · rw [if_pos hleast, bind_of_ok (peek_of_reads hb), if_neg hequal]
    rfl
  · rw [if_neg hleast]
    rfl

end

/-! ## Steps that catch a failure -/

theorem Parses.of_clean {x x' y : Build α} {ts rest : List Token}
    (h : ∀ b a b', Clean x b a b' ↔ Clean x' b a b') (hx : Parses x' y ts rest) :
    Parses x y ts rest :=
  ⟨fun b hb a b' => (h b a b').trans (hx.runs b hb a b'), hx.ends⟩

/-- A failure that is caught and passed on is a failure. -/
theorem clean_attempt {x : Build Unit} {mid : Build α} {k : α → Build β} (b : Builder) (c : β)
    (b' : Builder) :
    Clean (do let outcome ← attempt x; let m ← mid; conclude outcome; k m) b c b' ↔
      Clean (do x; let m ← mid; k m) b c b' := by
  rcases hx : x b with ⟨u, b₁⟩ | ⟨e, b₁⟩
  · have hattempt : attempt x b = .ok (.ok u) b₁ := by rw [attempt, hx]
    rw [clean_congr (bind_of_ok hattempt), clean_congr (bind_of_ok hx)]
    rfl
  · have hattempt : attempt x b = .ok (.error e) b₁ := by rw [attempt, hx]
    rw [clean_congr (bind_of_ok hattempt)]
    constructor
    · rintro ⟨hrun, -⟩
      rcases hmid : mid b₁ with ⟨m, b₂⟩ | ⟨e', b₂⟩
      · rw [bind_of_ok hmid, bind_of_error (x := conclude (.error e)) rfl] at hrun
        simp at hrun
      · rw [bind_of_error hmid] at hrun
        simp at hrun
    · rintro ⟨hrun, -⟩
      rw [bind_of_error hx] at hrun
      simp at hrun

/-- What is tried and then concluded is clean just if it is so without being tried. -/
theorem clean_attempt_last {x mid : Build Unit} (b : Builder) (u : Unit) (b' : Builder) :
    Clean (do let outcome ← attempt x; mid; conclude outcome) b u b' ↔
      Clean (do x; mid) b u b' := by
  have h := @clean_attempt Unit Unit x mid (fun _ => pure ()) b u b'
  simpa using h

/-- A step in a scope is clean just if it is so between opening and closing the scope. -/
theorem clean_inScope {x : Build Unit} (b : Builder) (u : Unit) (b' : Builder) :
    Clean (inScope x) b u b' ↔ Clean (do beginScope; x; endScope) b u b' := by
  have hbegin : beginScope b = .ok () (b.withDepth (b.context.depth + 1)) := rfl
  unfold inScope
  rw [clean_congr (bind_of_ok hbegin), clean_congr (bind_of_ok hbegin)]
  exact clean_attempt_last _ u b'

/-- A declaration that fails is a complaint. -/
theorem clean_declaration {inner : Phrase → Build Unit} [∀ p, Cumulative (inner p)] (b : Builder)
    (u : Unit) (b' : Builder) :
    Clean (declaration inner) b u b' ↔ Clean (tryDeclaration inner) b u b' := by
  unfold declaration
  constructor
  · intro h
    obtain ⟨outcome, b₁, hattempt, h⟩ := h.bind_of_cumulative fun outcome => by
      split <;> infer_instance
    cases outcome with
    | ok _ =>
      obtain ⟨rfl, rfl⟩ := h.of_pure
      exact hattempt.attempt_ok
    | error e =>
      obtain ⟨_, _, hnote, _⟩ := h.bind
      exact absurd hnote Clean.not_note
  · intro h
    have hattempt : attempt (tryDeclaration inner) b = .ok (.ok u) b' := by rw [attempt, h.1]
    rw [clean_congr (bind_of_ok hattempt)]
    exact ⟨rfl, h.2⟩

/-! ## Assignments -/

/-- Where no equals sign stands, the part without an assignment is read. -/
theorem Parses.acceptAssignment_else {v w z : Build β} {t : Token} {tokens ts rest : List Token}
    {canAssign : Bool} (htokens : ts ++ rest = t :: tokens) (ht : t.kind ≠ .equal)
    (hw : Parses w z ts rest) :
    Parses (do if ← acceptAssignment canAssign then v else w) z ts rest := by
  unfold acceptAssignment
  cases canAssign with
  | true => exact .accept_else htokens ht hw
  | false => exact hw

/-- Where an equals sign stands and an assignment is allowed, the assignment is read. -/
theorem Parses.acceptAssignment_then {v w z : Build β} {t : Token} {ts rest : List Token}
    {canAssign : Bool} (hassign : canAssign = true) (ht : t.kind = .equal)
    (hv : Parses v z ts rest) :
    Parses (do if ← acceptAssignment canAssign then v else w) (do pass; z) (t :: ts) rest := by
  unfold acceptAssignment
  rw [hassign, if_pos rfl]
  exact .accept_then ht (by simp) hv

theorem Parses.expect_last {t : Token} {rest : List Token} {what : Expectation}
    (ht : t.kind = what.kind) :
    Parses (do let _ ← Build.expect what) pass [t] rest :=
  (Parses.expect ht (Parses.done (pure ()))).congr bind_pure_unit rfl

/-- The line of a token that has to stand here is the line of the token read last. -/
theorem Parses.expect_line {f : Nat → Build β} [∀ line, Silent (f line)] {t : Token}
    {rest : List Token} {what : Expectation} (ht : t.kind = what.kind) :
    Parses (do f (← Build.expect what).line) (do pass; f (← previousLine)) [t] rest := by
  have h : Parses (do f (← Build.expect what).line) (do pass; f t.line) [t] rest :=
    .expect ht (.done _)
  have hrun : ∀ b, b.Reads ([t] ++ rest) →
      (do pass; f (← previousLine) : Build β) b = (do pass; f t.line : Build β) b := by
    intro b hb
    have hline : previousLine b.take = .ok t.line b.take := by
      rw [← hb.next]
      rfl
    rw [bind_of_ok (pass_of_reads hb), bind_of_ok (pass_of_reads hb), bind_of_ok hline]
  refine ⟨fun b hb a b' => ?_, fun b hb a b' hclean => ?_⟩
  · rw [clean_congr (hrun b hb)]
    exact h.runs b hb a b'
  · rw [clean_congr (hrun b hb)] at hclean
    exact h.ends b hb a b' hclean

/-- What can stand behind `else`. -/
def otherwise (inner : Phrase → Build Unit) : Build Unit := do
  if ← Build.accept .ifKw then
    inner .conditional
  else
    let _ ← Build.expect .braceAfterElse
    inScope (block inner)

end Build

open Build

/-! ## What a phrase is read as -/

/-- The phrase that a list of tokens spells is read as its tree says, in front of everything that
can follow it, to every depth that is greater than the number of its tokens. -/
def Nonterminal.Parsed : Nonterminal → List Token → Prop
  | .expression q e, ts => ∀ p d rest, p.rank ≤ q.rank → ts.length ≤ d → Follows q e rest →
      ∃ items : List ScanItem, rest.length ≤ items.length ∧
        Build.Leads (Build.expression (phrase d) p) e.build (resume (phrase d) p items) ts rest
  | .list es, ts => ∀ d rest excess count (items : List ScanItem) t us, ts.length < d →
      rest = t :: us → t.kind ∈ [.rightParen, .rightBracket] →
      (ts ++ rest).length ≤ items.length →
      Parses (listElements (phrase d) excess count items)
        (do Expr.buildList excess count es; return count + es.length) ts rest
  | .optionalList es, ts => ∀ d rest excess closing t, ts.length < d → t.kind = closing.kind →
      closing.kind ∈ [.rightParen, .rightBracket] →
      Parses (expressionList (phrase d) excess closing)
        (do Expr.buildList excess 0 es; pass; return UInt8.ofNat es.length) (ts ++ [t]) rest
  | .declaration s, ts => ∀ d rest t us, ts.length < d → rest = t :: us → t.kind ≠ .elseKw →
      Parses (phrase d .declaration) s.build ts rest
  | .declarations ss, ts => ∀ d rest closing (items : List ScanItem) t us, ts.length < d →
      rest = t :: us → t.kind = closing → closing ∈ [.rightBrace, .eof] →
      (ts ++ rest).length ≤ items.length →
      Parses (repeatOver (blockRound (phrase d) closing) items) (Decl.buildAll ss) ts rest
  | .block ss, ts => ∃ t us, ts = t :: us ∧ t.kind = .leftBrace ∧ ∀ d rest, us.length < d →
      Parses (Build.block (phrase d)) (do Decl.buildAll ss; pass) us rest
  | .conditional s, ts => ∀ d rest t us, ts.length < d → rest = t :: us → t.kind ≠ .elseKw →
      Parses (phrase d .conditional) s.buildConditional ts rest
  | .alternative s, ts => ∀ d rest t us, ts.length < d → rest = t :: us → t.kind ≠ .elseKw →
      Parses (otherwise (phrase d)) s.build ts rest
  | .names ns, ts => ∀ rest (items : List ScanItem) t us, rest = t :: us → t.kind = .rightParen →
      (ts ++ rest).length ≤ items.length →
      Parses (repeatOver parameter items) (parameterNames ns) ts rest
  | .parameters ns, ts => ∀ rest, Parses Build.parameters (parameterList ns) ts rest
  | .member m, ts => ∀ d rest, ts.length < d → Parses (Build.member (phrase d)) m.build ts rest
  | .members ms, ts => ∀ d rest (items : List ScanItem) t us, ts.length < d → rest = t :: us →
      t.kind = .rightBrace → (ts ++ rest).length ≤ items.length →
      Parses (repeatOver (memberRound (phrase d)) items) (Member.buildAll ms) ts rest

-- The longest phrases are sequences of a dozen steps.
set_option synthInstance.maxSize 2048

namespace Parsed

variable {p q : Precedence} {e l r : Expr} {es : List Expr} {t opening closing sign name : Token}
  {ts us rest : List Token} {d : Nat}

/-! ### Expressions -/

/-- An expression of a level in front of a token that binds less tightly. -/
theorem parses_phrase (h : (Nonterminal.expression q e).Parsed ts) (hd : ts.length < d)
    (hf : Follows q e (t :: rest))
    (hstop : ∀ r c, continuation? t.kind = some (r, c) → r.rank < q.rank) :
    Parses (phrase d (.expression q)) e.build ts (t :: rest) := by
  obtain ⟨d, rfl⟩ : ∃ n, d = n + 1 := ⟨d - 1, by omega⟩
  obtain ⟨items, hitems, hleads⟩ := h q d (t :: rest) (Nat.le_refl _) (by omega) hf
  obtain ⟨_, _, hrest, -, hequal, -⟩ := hf
  obtain ⟨rfl, rfl⟩ := List.cons.inj hrest
  rw [phrase]
  refine hleads.parses fun b hb => ?_
  cases items with
  | nil => simp at hitems
  | cons item items => exact resume_of_reads hb hstop hequal

/-- An expression of any kind in front of a token that cannot go on with one. -/
theorem parses_any (h : (Nonterminal.expression .assignment e).Parsed ts) (hd : ts.length < d)
    (hnone : continuation? t.kind = none) (hequal : t.kind ≠ .equal) :
    Parses (anyExpression (phrase d)) e.build ts (t :: rest) := by
  refine parses_phrase h hd (follows_of_none hnone hequal) fun r c hc => ?_
  rw [hnone] at hc
  simp at hc

/-- An operand is read before the loop. -/
theorem operand {y : Build Unit} (ht : t.kind ≠ .eof) (he : e.build = (do pass; y))
    (h : ∀ (p : Precedence) d rest, p.rank ≤ q.rank → us.length < d → Follows q e rest →
      Parses (primary (phrase d) t (p = .assignment)) y us rest) :
    (Nonterminal.expression q e).Parsed (t :: us) := by
  intro p d rest hp hd hf
  refine ⟨rest.map .ok, by simp, ?_⟩
  rw [he]
  exact .operand ht (h p d rest hp (by simp at hd; omega) hf)

/-- What follows an operand is read in one more round of the loop. -/
theorem round {y : Build Unit} [Cumulative y] {k : Precedence} {c : Continuation} {e' : Expr}
    (h : (Nonterminal.expression p e).Parsed ts) (hc : continuation? t.kind = some (k, c))
    (hf : Follows p e [t]) (hp : q.rank ≤ p.rank) (hk : q.rank ≤ k.rank)
    (he : e'.build = (do e.build; pass; y))
    (hy : ∀ (p : Precedence) d rest, p.rank ≤ q.rank → us.length < d → Follows q e' rest →
      Parses (continueWith (phrase d) t (p = .assignment) c) y us rest) :
    (Nonterminal.expression q e').Parsed (ts ++ t :: us) := by
  intro p' d rest hp' hd hf'
  have hlength : (ts ++ t :: us).length = ts.length + (us.length + 1) := by simp
  have hfollows : Follows p e (t :: us ++ rest) := by
    obtain ⟨_, _, ht, hf⟩ := hf
    obtain ⟨rfl, rfl⟩ := List.cons.inj ht
    exact ⟨t, _, rfl, hf⟩
  obtain ⟨items, hitems, hleads⟩ := h p' d (t :: us ++ rest) (by omega) (by omega) hfollows
  cases items with
  | nil => simp at hitems
  | cons item items =>
    refine ⟨items, by simp at hitems; omega, ?_⟩
    rw [he]
    exact hleads.trans (.round hc (by omega) (hy p' d rest hp' (by omega) hf'))

theorem tighter (h : (Nonterminal.expression p.tighter e).Parsed ts) :
    (Nonterminal.expression p e).Parsed ts := by
  intro p' d rest hp' hd hf
  exact h p' d rest (Nat.le_trans hp' p.rank_le_tighter) hd hf.tighter

/-- A literal is read as a literal. -/
theorem literal (ht : t.kind ∈ TokenKind.literals) :
    (Nonterminal.expression .call (.literal t)).Parsed [t] := by
  have hprimary : ∀ inner canAssign, primary inner t canAssign = Build.literal t := by
    intro inner canAssign
    simp only [TokenKind.literals, List.mem_cons, List.not_mem_nil, or_false] at ht
    unfold primary Build.literal
    rcases ht with h | h | h | h | h <;> rw [h]
  refine operand ?_ rfl fun p d rest _ _ _ => ?_
  · intro heof
    rw [heof] at ht
    simp [TokenKind.literals] at ht
  · rw [hprimary]
    exact .done _

/-- A name is read as a variable. -/
theorem ident (ht : t.kind = .identifier) :
    (Nonterminal.expression .call (.ident t)).Parsed [t] := by
  refine operand (by simp [ht]) rfl fun p d rest _ _ hf => ?_
  obtain ⟨s, us, rfl, -, hequal, -⟩ := hf
  rw [primary, ht]
  unfold readVariable
  exact .silent fun access => .acceptAssignment_else rfl hequal (.done _)

theorem this (ht : t.kind = .selfKw) : (Nonterminal.expression .call (.this t)).Parsed [t] := by
  refine operand (by simp [ht]) rfl fun p d rest _ _ _ => ?_
  rw [primary, ht]
  exact .done _

/-- The name behind `super` and a point is read as an inherited method. -/
theorem inherited {dot : Token} (ht : t.kind = .superKw) (hdot : dot.kind = .dot)
    (hname : name.kind = .identifier) :
    (Nonterminal.expression .call (.inherited t name)).Parsed [t, dot, name] := by
  have hbuild : (Expr.inherited t name).build = (do
      pass
      requireSuperclass t
      pass
      pass
      let index ← nameConstant name
      readVariable ⟨.selfKw, "self", t.start, t.line⟩
      readSuperclass t
      emitWithAt .getSuper index name.line) := by
    simp only [Expr.build, inheritedName, bind_assoc, pure_bind]
  refine operand (by simp [ht]) hbuild fun p d rest _ _ hf => ?_
  obtain ⟨s, us, rfl, -, -, hparen⟩ := hf
  rw [primary, ht]
  refine .silent fun _ => .expect hdot (.expect hname (.silent fun index => .silent fun _ => ?_))
  exact .accept_else rfl (hparen rfl) (.done _)

/-! ### Operands with parts -/

/-- A list of expressions up to its closing token, and what is done with their number. -/
theorem list_bind {f : UInt8 → Build Unit} [∀ n, Silent (f n)] [∀ n, Cumulative (f n)]
    {excess : ErrorKind} {what : Expectation} (h : (Nonterminal.optionalList es).Parsed us)
    (hd : us.length < d) (hclosing : closing.kind = what.kind)
    (hwhat : what.kind ∈ [.rightParen, .rightBracket]) :
    Parses (do f (← expressionList (phrase d) excess what))
      (do Expr.buildList excess 0 es; pass; f (UInt8.ofNat es.length)) (us ++ [closing]) rest := by
  refine ((h d rest excess what closing hd hclosing hwhat).bind fun n => .done (f n)).congr ?_ ?_
  · simp only [bind_assoc, pure_bind]
  · simp

/-- With arguments behind it, it is read as a call of the inherited method. -/
theorem inheritedCall {dot : Token} (ht : t.kind = .superKw) (hdot : dot.kind = .dot)
    (hname : name.kind = .identifier) (hopening : opening.kind = .leftParen)
    (hes : (Nonterminal.optionalList es).Parsed us) (hclosing : closing.kind = .rightParen) :
    (Nonterminal.expression .call (.inheritedCall t name es)).Parsed
      (t :: dot :: name :: opening :: us ++ [closing]) := by
  have hbuild : (Expr.inheritedCall t name es).build = (do
      pass
      requireSuperclass t
      pass
      pass
      let index ← nameConstant name
      readVariable ⟨.selfKw, "self", t.start, t.line⟩
      pass
      Expr.buildList .tooManyArguments 0 es
      pass
      readSuperclass t
      emitWithAt .invokeSuper index name.line
      emitByteAt (UInt8.ofNat es.length) name.line) := by
    simp only [Expr.build, inheritedName, bind_assoc, pure_bind]
  refine operand (by simp [ht]) hbuild fun p d rest _ hd _ => ?_
  rw [primary, ht]
  refine .silent fun _ => .expect hdot (.expect hname (.silent fun index => .silent fun _ => ?_))
  exact .accept_then hopening (by simp)
    (list_bind hes (by simp at hd; omega) hclosing (by simp [Expectation.kind]))

/-- An expression in parentheses is read as a grouping. -/
theorem grouping (hopening : opening.kind = .leftParen)
    (he : (Nonterminal.expression .assignment e).Parsed ts)
    (hclosing : closing.kind = .rightParen) :
    (Nonterminal.expression .call (.grouping e)).Parsed (opening :: ts ++ [closing]) := by
  refine operand (by simp [hopening]) rfl fun p d rest _ hd _ => ?_
  rw [primary, hopening]
  exact (parses_any he (by simp at hd; omega) (by rw [hclosing]; rfl) (by simp [hclosing])).bind
    fun _ => .expect_last hclosing

/-- Expressions in brackets are read as an array. -/
theorem array (hopening : opening.kind = .leftBracket)
    (hes : (Nonterminal.optionalList es).Parsed ts) (hclosing : closing.kind = .rightBracket) :
    (Nonterminal.expression .call (.array opening es)).Parsed (opening :: ts ++ [closing]) := by
  refine operand (by simp [hopening]) rfl fun p d rest _ hd _ => ?_
  rw [primary, hopening]
  exact list_bind hes (by simp at hd; omega) hclosing (by simp [Expectation.kind])

/-- A sign in front of an operand is read as a unary operation. -/
theorem unary (hsign : sign.kind ∈ [.bang, .minus])
    (he : (Nonterminal.expression .unary e).Parsed ts) :
    (Nonterminal.expression .unary (.unary sign e)).Parsed (sign :: ts) := by
  have hprimary : ∀ inner canAssign,
      primary inner sign canAssign = Build.unary inner (signOp sign.kind) sign := by
    intro inner canAssign
    simp only [List.mem_cons, List.not_mem_nil, or_false] at hsign
    unfold primary signOp
    rcases hsign with h | h <;> rw [h] <;> rfl
  refine operand ?_ rfl fun p d rest _ hd hf => ?_
  · intro heof
    rw [heof] at hsign
    simp at hsign
  · rw [hprimary]
    have hoperand : Follows .unary e rest := hf.operand (by simp) fun _ => id
    obtain ⟨s, us, rfl, hends, -⟩ := hf
    exact (parses_phrase he (by omega) hoperand fun r c => hends.rank_lt rfl).bind_done

/-- A name with an equals sign behind it is read as an assignment. -/
theorem assign (hname : name.kind = .identifier) (hsign : sign.kind = .equal)
    (he : (Nonterminal.expression .assignment e).Parsed ts) :
    (Nonterminal.expression .assignment (.assign name e)).Parsed (name :: sign :: ts) := by
  refine operand (by simp [hname]) rfl fun p d rest hp hd hf => ?_
  have hassign : decide (p = .assignment) = true := by
    cases p <;> revert hp <;> decide
  have hvalue : Follows .assignment e rest := hf.operand (by simp) fun _ => id
  obtain ⟨s, us, rfl, hends, -⟩ := hf
  rw [primary, hname]
  refine .silent fun access => .acceptAssignment_then hassign hsign ?_
  exact (parses_phrase he (by simp at hd; omega) hvalue fun r c => hends.rank_lt rfl).bind_done

/-! ### Rounds of the loop -/

/-- Operands with a sign between them are read as a binary operation. -/
theorem binary (hl : (Nonterminal.expression p l).Parsed ts) (hsign : sign.kind ∈ p.signs)
    (hr : (Nonterminal.expression p.tighter r).Parsed us) :
    (Nonterminal.expression p (.binary l sign r)).Parsed (ts ++ sign :: us) := by
  have hc := Precedence.continuation?_of_mem_signs hsign
  have hp : p ≠ .call ∧ p.groupsLeft = true := by
    cases p <;> simp [Precedence.signs, Precedence.groupsLeft] at hsign ⊢
  have hends : p.Ends sign.kind := by
    intro q c hq
    rw [hc] at hq
    obtain ⟨rfl, -⟩ := Prod.mk.inj (Option.some.inj hq)
    exact .inr ⟨rfl, hp.2⟩
  have hsign' : sign.kind ≠ .equal := by
    intro hequal
    rw [hequal] at hc
    simp [continuation?] at hc
  refine round hl hc (follows_sign hends hp.1 hsign') (Nat.le_refl _) (Nat.le_refl _) rfl
    fun p' d rest _ hd hf => ?_
  have hoperand : Follows p.tighter r rest := hf.operand hp.1 fun _ h => h.tighter
  obtain ⟨s, us, rfl, hstop, -⟩ := hf
  exact (parses_phrase hr hd hoperand fun q c => hstop.rank_lt_tighter hp.1).bind_done

/-- The second operand of an operator that groups to the right. -/
theorem second_operand {e' : Expr} (hr : (Nonterminal.expression q r).Parsed us)
    (hq : q.groupsLeft = false) (hd : us.length < d) (hf : Follows q e' rest) :
    Parses (phrase d (.expression q)) r.build us rest := by
  have hcall : q ≠ .call := by
    rintro rfl
    simp [Precedence.groupsLeft] at hq
  have hoperand : Follows q r rest := hf.operand hcall fun _ => id
  obtain ⟨s, us, rfl, hstop, -⟩ := hf
  exact parses_phrase hr hd hoperand fun q c => hstop.rank_lt hq

/-- Operands of `&&` are read as a conjunction. -/
theorem conjunction (hl : (Nonterminal.expression .equality l).Parsed ts)
    (hsign : sign.kind = .andAnd) (hr : (Nonterminal.expression .and r).Parsed us) :
    (Nonterminal.expression .and (.conjunction l sign r)).Parsed (ts ++ sign :: us) := by
  have hfollows : Follows .equality l [sign] :=
    follows_sign (hsign ▸ Precedence.ends_of_continuation? rfl (by decide)) nofun (by simp [hsign])
  refine round hl (by rw [hsign]; rfl) hfollows (by decide) (Nat.le_refl _) rfl
    fun p d rest _ hd hf => ?_
  exact .silent fun skip => .silent fun _ => (second_operand hr rfl hd hf).bind_done

/-- Operands of `||` are read as a disjunction. -/
theorem disjunction (hl : (Nonterminal.expression .and l).Parsed ts)
    (hsign : sign.kind = .orOr) (hr : (Nonterminal.expression .or r).Parsed us) :
    (Nonterminal.expression .or (.disjunction l sign r)).Parsed (ts ++ sign :: us) := by
  have hfollows : Follows .and l [sign] :=
    follows_sign (hsign ▸ Precedence.ends_of_continuation? rfl (by decide)) nofun (by simp [hsign])
  refine round hl (by rw [hsign]; rfl) hfollows (by decide) (Nat.le_refl _) rfl
    fun p d rest _ hd hf => ?_
  exact .silent fun go => .silent fun skip => .silent fun _ => .silent fun _ =>
    (second_operand hr rfl hd hf).bind_done

theorem follows_call {dot : Token} (hkind : dot.kind ≠ .equal)
    (hparen : e.isProperty = true → dot.kind ≠ .leftParen) : Follows .call e [dot] :=
  ⟨dot, [], rfl, Precedence.ends_call _, hkind, hparen⟩

/-- Arguments behind an expression that is no property are read as a call. -/
theorem call (he : (Nonterminal.expression .call e).Parsed ts) (hproperty : e.isProperty = false)
    (hopening : opening.kind = .leftParen) (hes : (Nonterminal.optionalList es).Parsed us)
    (hclosing : closing.kind = .rightParen) :
    (Nonterminal.expression .call (.call e opening es)).Parsed
      (ts ++ opening :: us ++ [closing]) := by
  rw [List.append_assoc]
  refine round he (by rw [hopening]; rfl) (follows_call (by simp [hopening]) (by simp [hproperty]))
    (Nat.le_refl _) (Nat.le_refl _) rfl fun p d rest _ hd _ => ?_
  exact list_bind hes (by simp at hd; omega) hclosing (by simp [Expectation.kind])

/-- An index in brackets is read as a subscript. -/
theorem subscript {i : Expr} (he : (Nonterminal.expression .call e).Parsed ts)
    (hopening : opening.kind = .leftBracket) (hi : (Nonterminal.expression .assignment i).Parsed us)
    (hclosing : closing.kind = .rightBracket) :
    (Nonterminal.expression .call (.subscript e opening i)).Parsed
      (ts ++ opening :: us ++ [closing]) := by
  rw [List.append_assoc]
  refine round he (by rw [hopening]; rfl) (follows_call (by simp [hopening]) (by simp [hopening]))
    (Nat.le_refl _) (Nat.le_refl _) rfl fun p d rest _ hd _ => ?_
  refine (parses_any hi (by simp at hd; omega) (by rw [hclosing]; rfl) (by simp [hclosing])).bind
    fun _ => ?_
  exact .expect hclosing (.done _)

/-- A name behind a point is read as a property. -/
theorem property {dot : Token} (he : (Nonterminal.expression .call e).Parsed ts)
    (hdot : dot.kind = .dot) (hname : name.kind = .identifier) :
    (Nonterminal.expression .call (.property e name)).Parsed (ts ++ [dot, name]) := by
  have hbuild : (Expr.property e name).build = (do
      e.build
      pass
      pass
      let index ← nameConstant name
      emitWithAt .getProperty index name.line) := by
    simp only [Expr.build, propertyName, bind_assoc]
  refine round he (by rw [hdot]; rfl) (follows_call (by simp [hdot]) (by simp [hdot]))
    (Nat.le_refl _) (Nat.le_refl _) hbuild fun p d rest _ hd hf => ?_
  obtain ⟨s, us, rfl, -, hequal, hparen⟩ := hf
  refine .expect hname (.silent fun index => .acceptAssignment_else rfl hequal ?_)
  exact .accept_else rfl (hparen rfl) (.done _)

/-- With arguments behind it, it is read as a call of the method. -/
theorem methodCall {dot : Token} (he : (Nonterminal.expression .call e).Parsed ts)
    (hdot : dot.kind = .dot) (hname : name.kind = .identifier)
    (hopening : opening.kind = .leftParen) (hes : (Nonterminal.optionalList es).Parsed us)
    (hclosing : closing.kind = .rightParen) :
    (Nonterminal.expression .call (.methodCall e name es)).Parsed
      (ts ++ dot :: name :: opening :: us ++ [closing]) := by
  have hbuild : (Expr.methodCall e name es).build = (do
      e.build
      pass
      pass
      let index ← nameConstant name
      pass
      Expr.buildList .tooManyArguments 0 es
      pass
      emitWithAt .invoke index name.line
      emitByteAt (UInt8.ofNat es.length) name.line) := by
    simp only [Expr.build, propertyName, bind_assoc]
  rw [List.append_assoc]
  refine round he (by rw [hdot]; rfl) (follows_call (by simp [hdot]) (by simp [hdot]))
    (Nat.le_refl _) (Nat.le_refl _) hbuild fun p d rest _ hd _ => ?_
  refine .expect hname (.silent fun index => .acceptAssignment_else rfl (by simp [hopening]) ?_)
  exact .accept_then hopening (by simp)
    (list_bind hes (by simp at hd; omega) hclosing (by simp [Expectation.kind]))

/-- With an equals sign behind it, it is read as an assignment to the property. -/
theorem setProperty {dot : Token} (he : (Nonterminal.expression .call e).Parsed ts)
    (hdot : dot.kind = .dot) (hname : name.kind = .identifier) (hsign : sign.kind = .equal)
    (hr : (Nonterminal.expression .assignment r).Parsed us) :
    (Nonterminal.expression .assignment (.setProperty e name r)).Parsed
      (ts ++ dot :: name :: sign :: us) := by
  have hbuild : (Expr.setProperty e name r).build = (do
      e.build
      pass
      pass
      let index ← nameConstant name
      pass
      r.build
      emitWithAt .setProperty index name.line) := by
    simp only [Expr.build, propertyName, bind_assoc]
  refine round he (by rw [hdot]; rfl) (follows_call (by simp [hdot]) (by simp [hdot]))
    (by decide) (by decide) hbuild fun p d rest hp hd hf => ?_
  have hassign : decide (p = .assignment) = true := by
    cases p <;> revert hp <;> decide
  refine .expect hname (.silent fun index => .acceptAssignment_then hassign hsign ?_)
  exact (second_operand hr rfl (by simp at hd; omega) hf).bind_done

/-! ### Lists of expressions -/

/-- An element of a list is an expression, and a comma if there is another one. -/
theorem listElement_eq (inner : Phrase → Build Unit) (excess : ErrorKind) (count : Nat) :
    listElement inner excess count =
      (do anyExpression inner; limit excess count; accept .comma) := by
  unfold listElement limit refuse
  by_cases hcount : count = argumentLimit
  · simp [hcount]
  · simp only [hcount, decide_false, if_false, Bool.false_eq_true]
    rfl

/-- A list can end with an expression. -/
theorem last (he : (Nonterminal.expression .assignment e).Parsed ts) :
    (Nonterminal.list [e]).Parsed ts := by
  intro d rest excess count items t us hd hrest ht hitems
  subst hrest
  have hkind : continuation? t.kind = none ∧ t.kind ≠ .equal ∧ t.kind ≠ .comma := by
    simp only [List.mem_cons, List.not_mem_nil, or_false] at ht
    rcases ht with h | h <;> rw [h] <;> decide
  cases items with
  | nil => simp at hitems
  | cons item items =>
    rw [listElements, listElement_eq]
    simp only [bind_assoc]
    refine ((parses_any he hd hkind.1 hkind.2.1).bind fun _ => .silent fun _ =>
      .accept_else rfl hkind.2.2 (.done (pure (count + 1)))).congr ?_ (List.append_nil ts)
    simp only [Expr.buildList, divide, List.isEmpty_nil, if_pos, bind_assoc, pure_bind,
      List.length_singleton]

/-- A list can go on behind a comma. -/
theorem more {comma : Token} (he : (Nonterminal.expression .assignment e).Parsed ts)
    (hcomma : comma.kind = .comma) (hes : (Nonterminal.list es).Parsed us) (hne : es ≠ []) :
    (Nonterminal.list (e :: es)).Parsed (ts ++ comma :: us) := by
  intro d rest excess count items t vs hd hrest ht hitems
  have hlength : (ts ++ comma :: us).length = ts.length + (us.length + 1) := by simp
  cases items with
  | nil =>
    subst hrest
    simp at hitems
  | cons item items =>
    rw [listElements, listElement_eq]
    simp only [bind_assoc]
    have hrest' : (us ++ rest).length ≤ items.length := by
      simp only [List.length_append, List.length_cons] at hitems ⊢
      omega
    refine ((parses_any he (by omega) (by rw [hcomma]; rfl) (by simp [hcomma])).bind fun _ =>
      .silent fun _ => .accept_then hcomma (by simp)
        (hes d rest excess (count + 1) items t vs (by omega) hrest ht hrest')).congr ?_ rfl
    rw [Expr.buildList, divide, if_neg (by simpa using hne), List.length_cons]
    simp only [bind_assoc, Nat.add_assoc, Nat.add_comm 1]

theorem ne_nil_of_list {n : Nonterminal} {ts : List Token} (h : Derives n ts) :
    ∀ es, n = .list es → es ≠ [] := by
  rintro es rfl
  cases h <;> simp

/-- A list is empty if its closing token is next, and has elements otherwise. -/
theorem expressionList_eq (inner : Phrase → Build Unit) (excess : ErrorKind) (what : Expectation) :
    expressionList inner excess what = (do
      if ← check what.kind then
        let _ ← Build.expect what
        return 0
      else
        let count ← listElements inner excess 0 (← get).pending
        let _ ← Build.expect what
        return UInt8.ofNat count) := by
  unfold expressionList
  refine bind_congr fun c => ?_
  cases c <;> simp

/-- No expressions are read as the empty list. -/
theorem noList : (Nonterminal.optionalList []).Parsed [] := by
  intro d rest excess what t _ ht _
  rw [expressionList_eq]
  refine .check rfl ?_
  rw [ht, decide_eq_true rfl, if_pos rfl]
  refine (Parses.expect ht (.done (pure 0))).congr ?_ rfl
  simp only [Expr.buildList, pure_bind]
  rfl

/-- Expressions are read as a list that is not empty. -/
theorem someList (hes : (Nonterminal.list es).Parsed ts) (hfirst : (Nonterminal.list es).First ts) :
    (Nonterminal.optionalList es).Parsed ts := by
  intro d rest excess what t hd ht hwhat
  obtain ⟨s, us, rfl, hs⟩ := hfirst
  have hne : s.kind ≠ what.kind := by
    intro hkind
    rw [hkind] at hs
    simp only [List.mem_cons, List.not_mem_nil, or_false] at hwhat
    rcases hwhat with h | h <;> rw [h] at hs <;> revert hs <;> decide
  rw [expressionList_eq]
  refine .check rfl ?_
  rw [decide_eq_false hne, if_neg Bool.false_ne_true]
  refine Parses.pending (f := fun items => do
    let count ← listElements (phrase d) excess 0 items
    let _ ← Build.expect what
    return UInt8.ofNat count) ?_
  refine ((hes d (t :: rest) excess 0 _ t rest hd rfl (ht ▸ hwhat) (by simp)).bind fun n =>
    .expect ht (.done (pure (UInt8.ofNat n)))).congr ?_ rfl
  simp only [bind_assoc, pure_bind, Nat.zero_add]

/-! ### Blocks -/

variable {s : Decl} {ss : List Decl} {keyword semicolon : Token} {y : Build Unit}

/-- No declarations are read where the block or the source ends. -/
theorem noDeclarations : (Nonterminal.declarations []).Parsed [] := by
  intro d rest kind items t us _ hrest ht _ hitems
  subst hrest
  cases items with
  | nil => simp at hitems
  | cons item items =>
    rw [Decl.buildAll]
    refine .stop fun b hb => ?_
    rw [blockRound, atEnd, bind_assoc, bind_of_ok (peek_of_reads hb)]
    simp [ht]
    rfl

/-- Declarations are read one after the other. -/
theorem declarations (hs : (Nonterminal.declaration s).Parsed ts)
    (hfirst : (Nonterminal.declaration s).First ts) (hss : (Nonterminal.declarations ss).Parsed us)
    (hnext : (Nonterminal.declarations ss).First us) :
    (Nonterminal.declarations (s :: ss)).Parsed (ts ++ us) := by
  intro d rest kind items t vs hd hrest ht hkind hitems
  obtain ⟨t₁, ts, rfl, ht₁⟩ := hfirst
  have hlength : (t₁ :: ts ++ us).length = ts.length + us.length + 1 := by simp
  -- Behind a declaration stands another one, or the end.
  have helse : ∃ t₂ vs', us ++ rest = t₂ :: vs' ∧ t₂.kind ≠ .elseKw := by
    rcases hnext with rfl | ⟨t₂, us', rfl, ht₂⟩
    · refine ⟨t, vs, hrest, ?_⟩
      rw [ht]
      simp only [List.mem_cons, List.not_mem_nil, or_false] at hkind
      rcases hkind with h | h <;> rw [h] <;> decide
    · refine ⟨t₂, us' ++ rest, rfl, fun h => ?_⟩
      rw [h] at ht₂
      revert ht₂
      decide
  obtain ⟨t₂, vs', hvs, helse⟩ := helse
  have hround : Parses (blockRound (phrase d) kind) (do s.build; return true) (t₁ :: ts)
      (us ++ rest) := by
    unfold blockRound
    refine .atEnd rfl ?_
    have hend : (decide (t₁.kind = kind) || decide (t₁.kind = .eof)) = false := by
      simp only [List.mem_cons, List.not_mem_nil, or_false] at hkind
      rw [Bool.or_eq_false_iff, decide_eq_false_iff_not, decide_eq_false_iff_not]
      constructor
      · rintro rfl
        rcases hkind with h | h <;> rw [h] at ht₁ <;> revert ht₁ <;> decide
      · intro h
        rw [h] at ht₁
        revert ht₁
        decide
    rw [hend, if_neg Bool.false_ne_true]
    exact (hs d _ t₂ vs' (by simp at hd ⊢; omega) hvs helse).bind_done
  cases items with
  | nil => simp at hitems
  | cons item items =>
    rw [Decl.buildAll]
    refine .again hround (hss d rest kind items t vs (by omega) hrest ht hkind ?_)
    simp only [List.length_append, List.length_cons] at hitems ⊢
    omega

/-- Declarations in braces are read as a block. -/
theorem block (hopening : opening.kind = .leftBrace) (hss : (Nonterminal.declarations ss).Parsed ts)
    (hclosing : closing.kind = .rightBrace) :
    (Nonterminal.block ss).Parsed (opening :: ts ++ [closing]) := by
  refine ⟨opening, ts ++ [closing], rfl, hopening, fun d rest hd => ?_⟩
  have hloop := hss d (closing :: rest) .rightBrace ((ts ++ closing :: rest).map .ok) closing rest
    (by simp at hd; omega) rfl hclosing (by simp) (by simp)
  exact hloop.repeatWhile.bind fun _ => .expect_last hclosing

/-- A block in a scope of its own. -/
theorem parses_enclosed {w : Build Unit}
    (hw : ∀ rest, Parses (Build.block (phrase d)) (do w; pass) us rest)
    [Cumulative w] (rest : List Token) :
    Parses (inScope (Build.block (phrase d))) (enclosed w) us rest := by
  refine .of_clean clean_inScope ?_
  refine (Parses.silent fun _ => (hw rest).bind_done).congr ?_ rfl
  simp only [enclosed, bind_assoc]

/-! ### Statements -/

/-- A declaration is what it tries to be. -/
theorem of_tryDeclaration
    (h : ∀ d rest t us, ts.length ≤ d → rest = t :: us → t.kind ≠ .elseKw →
      Parses (tryDeclaration (phrase d)) s.build ts rest) :
    (Nonterminal.declaration s).Parsed ts := by
  intro d rest t us hd hrest ht
  obtain ⟨d, rfl⟩ : ∃ n, d = n + 1 := ⟨d - 1, by omega⟩
  rw [phrase]
  exact .of_clean clean_declaration (h d rest t us (by omega) hrest ht)

/-- A declaration that does not start with a keyword of one is a statement. -/
theorem of_statement {inner : Phrase → Build Unit} {tokens : List Token}
    (htokens : ts ++ rest = t :: tokens) (ht : t.kind ∉ [.classKw, .funcKw, .varKw])
    (h : Parses (statement inner) y ts rest) : Parses (tryDeclaration inner) y ts rest := by
  unfold tryDeclaration
  refine .peek htokens ?_
  split <;> first | exact h | simp_all

/-- A `print` statement is read as one. -/
theorem print (hkeyword : keyword.kind = .printKw)
    (he : (Nonterminal.expression .assignment e).Parsed ts)
    (hsemicolon : semicolon.kind = .semicolon) :
    (Nonterminal.declaration (.print keyword e)).Parsed (keyword :: ts ++ [semicolon]) := by
  refine of_tryDeclaration fun d rest _ _ hd _ _ => ?_
  refine of_statement rfl (by simp [hkeyword]) ?_
  unfold statement
  refine .peek rfl ?_
  rw [hkeyword]
  refine .advance (by simp [hkeyword]) ?_
  refine (parses_any he (by simp at hd; omega) (by rw [hsemicolon]; rfl)
    (by simp [hsemicolon])).bind fun _ => ?_
  exact .expect hsemicolon (.done _)

/-- A return statement, once a function is at hand that can have one. -/
theorem parses_return {inner : Phrase → Build Unit} (hkeyword : keyword.kind = .returnKw)
    (h : Parses (do
      if ← accept .semicolon then emitReturn
      else
        anyExpression inner
        let _ ← Build.expect .semicolonAfterReturn
        emitAt .ret keyword.line) y ts rest) :
    Parses (do let _ ← advance; returnStatement inner keyword) (Build.leave keyword y)
      (keyword :: ts) rest := by
  refine .advance (by simp [hkeyword]) (.silent fun b => ?_)
  cases b.context.function.kind with
  | script | initializer => exact .never (fun _ _ _ => Clean.not_fail) fun _ _ _ => Clean.not_fail
  | function | method => exact h

/-- A `return` statement without a value is read as one. -/
theorem leave (hkeyword : keyword.kind = .returnKw) (hsemicolon : semicolon.kind = .semicolon) :
    (Nonterminal.declaration (.leave keyword none)).Parsed [keyword, semicolon] := by
  refine of_tryDeclaration fun d rest _ _ hd _ _ => ?_
  refine of_statement rfl (by simp [hkeyword]) ?_
  unfold statement
  refine .peek rfl ?_
  rw [hkeyword]
  exact parses_return hkeyword (.accept_then hsemicolon (by simp) (.done _))

/-- A `return` statement with a value is read as one. -/
theorem leaveWith (hkeyword : keyword.kind = .returnKw)
    (he : (Nonterminal.expression .assignment e).Parsed ts)
    (hfirst : (Nonterminal.expression .assignment e).First ts)
    (hsemicolon : semicolon.kind = .semicolon) :
    (Nonterminal.declaration (.leave keyword (some e))).Parsed (keyword :: ts ++ [semicolon]) := by
  refine of_tryDeclaration fun d rest _ _ hd _ _ => ?_
  refine of_statement rfl (by simp [hkeyword]) ?_
  unfold statement
  refine .peek rfl ?_
  rw [hkeyword]
  obtain ⟨t, us, rfl, ht⟩ := hfirst
  have hne : t.kind ≠ .semicolon := by
    intro h
    rw [h] at ht
    revert ht
    decide
  refine parses_return hkeyword (.accept_else rfl hne ?_)
  refine (parses_any he (by simp at hd ⊢; omega) (by rw [hsemicolon]; rfl)
    (by simp [hsemicolon])).bind fun _ => ?_
  exact .expect hsemicolon (.done _)

theorem buildConditional_of_derives {n : Nonterminal} {ts : List Token} (h : Derives n ts) :
    ∀ s, n = .conditional s → s.build = (do pass; s.buildConditional) := by
  rintro s rfl
  cases h <;> rfl

/-- A conditional is read behind its keyword. -/
theorem conditional (hkeyword : keyword.kind = .ifKw) (hs : (Nonterminal.conditional s).Parsed ts)
    (hbuild : s.build = (do pass; s.buildConditional)) :
    (Nonterminal.declaration s).Parsed (keyword :: ts) := by
  refine of_tryDeclaration fun d rest t us hd hrest ht => ?_
  refine of_statement rfl (by simp [hkeyword]) ?_
  unfold statement
  refine .peek rfl ?_
  rw [hkeyword, hbuild]
  exact .advance (by simp [hkeyword]) (hs d rest t us (by simp at hd; omega) hrest ht)

/-- A conditional statement, given its alternative. -/
theorem branch {w : Build Unit} {vs : List Token} [Cumulative w]
    (he : (Nonterminal.expression .assignment e).Parsed ts) (hss : (Nonterminal.block ss).Parsed us)
    (hd : (ts ++ us ++ vs).length ≤ d)
    (hw : Parses (alternative (phrase d)) w vs rest) :
    Parses (Build.conditional (phrase d)) (Build.branch e.build (Decl.buildAll ss) w)
      (ts ++ us ++ vs) rest := by
  obtain ⟨opening, us, rfl, hopening, hblock⟩ := hss
  have hlength : (ts ++ opening :: us ++ vs).length = ts.length + us.length + vs.length + 1 := by
    simp
    omega
  unfold Build.conditional Build.branch
  rw [List.append_assoc]
  refine (parses_any he (by omega) (by rw [hopening]; rfl) (by simp [hopening])).bind fun _ => ?_
  refine .silent fun line => .expect hopening (.silent fun toElse => .silent fun _ => ?_)
  refine (parses_enclosed (fun rest => hblock d rest (by omega)) _).bind fun _ => ?_
  exact .silent fun toEnd => .silent fun _ => hw.bind_done

/-- A condition and a block are read as a conditional without an alternative. -/
theorem ifThen (he : (Nonterminal.expression .assignment e).Parsed ts)
    (hss : (Nonterminal.block ss).Parsed us) :
    (Nonterminal.conditional (.ifThen e ss)).Parsed (ts ++ us) := by
  intro d rest t vs hd hrest ht
  obtain ⟨d, rfl⟩ : ∃ n, d = n + 1 := ⟨d - 1, by omega⟩
  subst hrest
  have h : Parses (alternative (phrase d)) (pure ()) [] (t :: vs) :=
    .accept_else rfl ht (.done _)
  have hbranch := branch he hss (by simp at hd ⊢; omega) h
  rwa [List.append_nil] at hbranch

/-- With `else` and an alternative behind it, it is read as a conditional with that alternative. -/
theorem ifElse {vs : List Token} (he : (Nonterminal.expression .assignment e).Parsed ts)
    (hss : (Nonterminal.block ss).Parsed us) (hkeyword : keyword.kind = .elseKw)
    (hs : (Nonterminal.alternative s).Parsed vs) :
    (Nonterminal.conditional (.ifElse e ss s)).Parsed (ts ++ us ++ keyword :: vs) := by
  intro d rest t ws hd hrest ht
  obtain ⟨d, rfl⟩ : ∃ n, d = n + 1 := ⟨d - 1, by omega⟩
  refine branch he hss (by omega) (.accept_then hkeyword (by simp) ?_)
  exact hs d rest t ws (by simp at hd; omega) hrest ht

/-- A conditional is read as an alternative. -/
theorem elseIf (hkeyword : keyword.kind = .ifKw) (hs : (Nonterminal.conditional s).Parsed ts)
    (hbuild : s.build = (do pass; s.buildConditional)) :
    (Nonterminal.alternative s).Parsed (keyword :: ts) := by
  intro d rest t us hd hrest ht
  rw [hbuild]
  exact .accept_then hkeyword (by simp) (hs d rest t us (by simp at hd; omega) hrest ht)

/-- A block is read as an alternative. -/
theorem elseBlock (hss : (Nonterminal.block ss).Parsed ts) :
    (Nonterminal.alternative (.block ss)).Parsed ts := by
  intro d rest _ _ hd _ _
  obtain ⟨opening, us, rfl, hopening, hblock⟩ := hss
  refine .accept_else rfl (by simp [hopening]) (.expect hopening ?_)
  exact parses_enclosed (fun rest => hblock d rest (by simp at hd; omega)) _

/-- A condition and a block behind `while` are read as a loop. -/
theorem loop (hkeyword : keyword.kind = .whileKw)
    (he : (Nonterminal.expression .assignment e).Parsed ts)
    (hss : (Nonterminal.block ss).Parsed us) :
    (Nonterminal.declaration (.loop e ss)).Parsed (keyword :: ts ++ us) := by
  refine of_tryDeclaration fun d rest _ _ hd _ _ => ?_
  refine of_statement rfl (by simp [hkeyword]) ?_
  unfold statement
  refine .peek rfl ?_
  rw [hkeyword]
  refine .advance (by simp [hkeyword]) ?_
  obtain ⟨opening, us, rfl, hopening, hblock⟩ := hss
  have hlength : (keyword :: ts ++ opening :: us).length = ts.length + us.length + 2 := by
    simp
    omega
  unfold whileLoop Build.cycle
  refine .silent fun start => ?_
  refine (parses_any he (by omega) (by rw [hopening]; rfl) (by simp [hopening])).bind fun _ => ?_
  refine .silent fun line => .expect hopening (.silent fun toEnd => .silent fun _ => ?_)
  exact (parses_enclosed (fun rest => hblock d rest (by omega)) _).bind_done

/-- A block is read as a statement. -/
theorem blockStatement (hss : (Nonterminal.block ss).Parsed ts) :
    (Nonterminal.declaration (.block ss)).Parsed ts := by
  refine of_tryDeclaration fun d rest _ _ hd _ _ => ?_
  obtain ⟨opening, us, rfl, hopening, hblock⟩ := hss
  refine of_statement rfl (by simp [hopening]) ?_
  unfold statement
  refine .peek rfl ?_
  rw [hopening]
  refine .advance (by simp [hopening]) ?_
  exact parses_enclosed (fun rest => hblock d rest (by simp at hd; omega)) _

/-- An expression with a semicolon is read as a statement. -/
theorem expression (he : (Nonterminal.expression .assignment e).Parsed ts)
    (hfirst : (Nonterminal.expression .assignment e).First ts)
    (hsemicolon : semicolon.kind = .semicolon) :
    (Nonterminal.declaration (.expression e)).Parsed (ts ++ [semicolon]) := by
  refine of_tryDeclaration fun d rest _ _ hd _ _ => ?_
  obtain ⟨t, us, rfl, ht⟩ := hfirst
  have hstatement : Parses (expressionStatement (phrase d)) (Decl.expression e).build
      (t :: us ++ [semicolon]) rest := by
    refine (parses_any he (by simp at hd ⊢; omega) (by rw [hsemicolon]; rfl)
      (by simp [hsemicolon])).bind fun _ => ?_
    exact .expect_line hsemicolon
  refine of_statement rfl ?_ ?_
  · intro hkind
    simp only [List.mem_cons, List.not_mem_nil, or_false] at hkind
    rcases hkind with h | h | h <;> rw [h] at ht <;> revert ht <;> decide
  · unfold statement
    refine .peek rfl ?_
    split
    all_goals first
      | exact hstatement
      | next hkind => rw [hkind] at ht; exact absurd ht (by decide)

/-! ### Variables and functions -/

theorem parses_variableName (hname : name.kind = .identifier) :
    Parses variableName (newName name) [name] rest := by
  unfold variableName newName
  exact .expect hname (.done _)

/-- A declaration without a value is read as one. -/
theorem var (hkeyword : keyword.kind = .varKw) (hname : name.kind = .identifier)
    (hsemicolon : semicolon.kind = .semicolon) :
    (Nonterminal.declaration (.var name none)).Parsed [keyword, name, semicolon] := by
  refine of_tryDeclaration fun d rest _ _ hd _ _ => ?_
  unfold tryDeclaration
  refine .peek rfl ?_
  rw [hkeyword]
  refine .advance (by simp [hkeyword]) ?_
  unfold variableDeclaration
  refine (parses_variableName hname).bind fun name? => ?_
  refine .accept_else rfl (by simp [hsemicolon]) ?_
  exact .silent fun _ => .expect hsemicolon (.done _)

/-- A declaration with a value is read as one. -/
theorem varWith (hkeyword : keyword.kind = .varKw) (hname : name.kind = .identifier)
    (hsign : sign.kind = .equal) (he : (Nonterminal.expression .assignment e).Parsed ts)
    (hsemicolon : semicolon.kind = .semicolon) :
    (Nonterminal.declaration (.var name (some e))).Parsed
      (keyword :: name :: sign :: ts ++ [semicolon]) := by
  refine of_tryDeclaration fun d rest _ _ hd _ _ => ?_
  unfold tryDeclaration
  refine .peek rfl ?_
  rw [hkeyword]
  refine .advance (by simp [hkeyword]) ?_
  unfold variableDeclaration
  refine (parses_variableName hname).bind fun name? => ?_
  refine .accept_then hsign (by simp) ?_
  refine (parses_any he (by simp at hd; omega) (by rw [hsemicolon]; rfl)
    (by simp [hsemicolon])).bind fun _ => ?_
  exact .expect hsemicolon (.done _)

/-- A parameter, and what follows it. -/
theorem parses_parameter {f : Bool → Build Unit} {z : Build Unit} (hname : name.kind = .identifier)
    [∀ more, Cumulative (f more)] [Cumulative z]
    (hz : Parses (do f (← accept .comma)) z us rest) :
    Parses (do f (← parameter)) (do countParameter; defineVariable (← newName name); z)
      (name :: us) rest := by
  unfold parameter countParameter
  simp only [bind_assoc]
  refine .silent fun b => ?_
  by_cases hfull : b.context.function.arity.toNat = argumentLimit
  · refine .never (fun b₁ c b' h => ?_) fun b₁ c b' h => ?_
    · rw [if_pos hfull] at h
      simp only [bind_assoc] at h
      obtain ⟨_, _, -, h⟩ := h.exists_ok
      obtain ⟨_, _, hfail, -⟩ := h.exists_ok
      simp [fail] at hfail
    · rw [decide_eq_true hfull] at h
      obtain ⟨_, _, hfail, -⟩ := h.exists_ok
      simp [refuse, fail] at hfail
  · rw [if_neg hfull, decide_eq_false hfull, refuse, if_neg Bool.false_ne_true]
    simp only [bind_assoc, pure_bind]
    refine .silent fun _ => (parses_variableName hname).bind fun name? => ?_
    exact .silent fun _ => hz

/-- Parameters can end with a name. -/
theorem lastName (hname : name.kind = .identifier) : (Nonterminal.names [name]).Parsed [name] := by
  intro rest items t us hrest ht hitems
  subst hrest
  cases items with
  | nil => simp at hitems
  | cons item items =>
    rw [repeatOver]
    refine (parses_parameter hname (.accept_else rfl (by simp [ht]) (.done (pure ())))).congr ?_ rfl
    simp only [parameterNames, divide, List.isEmpty_nil, if_pos, pure_bind]

/-- Parameters can go on behind a comma. -/
theorem moreNames {comma : Token} {ns : List Token} (hname : name.kind = .identifier)
    (hcomma : comma.kind = .comma) (hns : (Nonterminal.names ns).Parsed ts) (hne : ns ≠ []) :
    (Nonterminal.names (name :: ns)).Parsed (name :: comma :: ts) := by
  intro rest items t us hrest ht hitems
  cases items with
  | nil => simp at hitems
  | cons item items =>
    rw [repeatOver]
    refine (parses_parameter hname (.accept_then hcomma (by simp)
      (hns rest items t us hrest ht (by simp at hitems ⊢; omega)))).congr ?_ rfl
    rw [parameterNames, divide, if_neg (by simpa using hne)]

theorem ne_nil_of_names {n : Nonterminal} {ts : List Token} (h : Derives n ts) :
    ∀ ns, n = .names ns → ns ≠ [] := by
  rintro ns rfl
  cases h <;> simp

/-- Two parentheses are read as no parameters. -/
theorem noParameters (hopening : opening.kind = .leftParen)
    (hclosing : closing.kind = .rightParen) :
    (Nonterminal.parameters []).Parsed [opening, closing] := by
  intro rest
  unfold Build.parameters parameterList
  refine .expect hopening (.check rfl ?_)
  rw [decide_eq_true hclosing, if_neg (by simp), parameterNames, pure_bind]
  exact .expect_last hclosing

/-- Names in parentheses are read as parameters. -/
theorem parameters {ns : List Token} (hopening : opening.kind = .leftParen)
    (hns : (Nonterminal.names ns).Parsed ts) (hfirst : (Nonterminal.names ns).First ts)
    (hclosing : closing.kind = .rightParen) :
    (Nonterminal.parameters ns).Parsed (opening :: ts ++ [closing]) := by
  intro rest
  obtain ⟨t, us, rfl, ht⟩ := hfirst
  unfold Build.parameters parameterList
  refine .expect hopening (.check rfl ?_)
  rw [decide_eq_false (by simp [ht])]
  dsimp only
  rw [if_pos (by simp)]
  refine Parses.bind (.repeatWhile
    (hns (closing :: rest) _ closing rest rfl hclosing ?_)) fun _ => ?_
  · simp
  · exact .expect_last hclosing

/-- The parameter list of a function, if it has one. -/
def optionalParameters (hasParameters : Bool) : Build Unit :=
  if hasParameters then Build.parameters else pure ()

instance (hasParameters : Bool) : Cumulative (optionalParameters hasParameters) := by
  unfold optionalParameters
  infer_instance

/-- The body of a function is a scope with the parameters and a block in it. -/
theorem functionBody_eq (inner : Phrase → Build Unit) (hasParameters : Bool) :
    functionBody inner hasParameters = (do
      beginScope
      optionalParameters hasParameters
      let _ ← Build.expect .braceBeforeFunction
      Build.block inner) := by
  cases hasParameters <;> simp [functionBody, optionalParameters]

/-- A function from behind its name. -/
theorem parses_function {v : Build Unit} [Cumulative v] {label : String} {kind : FunctionKind}
    {hasParameters : Bool}
    (hv : ∀ rest, Parses (optionalParameters hasParameters) v ts rest)
    (hss : (Nonterminal.block ss).Parsed us) (hd : us.length ≤ d) :
    Parses (Build.function (phrase d) label kind hasParameters)
      (Build.routine label kind v (Decl.buildAll ss)) (ts ++ us) rest := by
  obtain ⟨opening, us, rfl, hopening, hblock⟩ := hss
  unfold Build.function
  rw [functionBody_eq]
  have hbody : Parses (do
      beginScope
      optionalParameters hasParameters
      let _ ← Build.expect .braceBeforeFunction
      Build.block (phrase d)) (do beginScope; v; pass; Decl.buildAll ss; pass)
      (ts ++ opening :: us) rest :=
    .silent fun _ => (hv _).bind fun _ => .expect hopening (hblock d rest (by simp at hd; omega))
  refine (Parses.silent fun line => .silent fun _ => .of_clean clean_attempt
    hbody.bind_done).congr ?_ rfl
  simp only [Build.routine, bind_assoc]

/-- A function declaration is read as one. -/
theorem func {ns : List Token} (hkeyword : keyword.kind = .funcKw)
    (hname : name.kind = .identifier) (hns : (Nonterminal.parameters ns).Parsed ts)
    (hss : (Nonterminal.block ss).Parsed us) :
    (Nonterminal.declaration (.func name ns ss)).Parsed (keyword :: name :: ts ++ us) := by
  refine of_tryDeclaration fun d rest _ _ hd _ _ => ?_
  unfold tryDeclaration
  refine .peek rfl ?_
  rw [hkeyword]
  refine .advance (by simp [hkeyword]) ?_
  unfold functionDeclaration
  refine (parses_variableName hname).bind fun name? => .silent fun b => .silent fun _ => ?_
  have hfunction : Parses (Build.function (phrase d) b.previous.lexeme .function true)
      (Build.routine b.previous.lexeme .function (parameterList ns) (Decl.buildAll ss)) (ts ++ us)
      rest :=
    parses_function hns hss (by simp at hd; omega)
  exact hfunction.bind_done

/-! ### Classes -/

/-- A computed property is read as a member. -/
theorem computed (hkeyword : keyword.kind = .varKw) (hname : name.kind = .identifier)
    (hss : (Nonterminal.block ss).Parsed ts) :
    (Nonterminal.member (.property name ss)).Parsed (keyword :: name :: ts) := by
  intro d rest hd
  unfold Build.member
  refine .accept_then hkeyword (by simp) (.expect hname (.silent fun index => ?_))
  have hfunction : Parses (Build.function (phrase d) name.lexeme .method false)
      (Build.routine name.lexeme .method (pure ()) (Decl.buildAll ss)) ([] ++ ts) rest :=
    parses_function (fun _ => .done (pure ())) hss (by simp at hd; omega)
  exact hfunction.bind_done

/-- A method is read as a member. -/
theorem method {ns : List Token} (hname : name.kind = .identifier)
    (hns : (Nonterminal.parameters ns).Parsed ts) (hss : (Nonterminal.block ss).Parsed us) :
    (Nonterminal.member (.method name ns ss)).Parsed (name :: ts ++ us) := by
  intro d rest hd
  unfold Build.member
  refine .accept_else rfl (by simp [hname]) (.expect hname (.silent fun index => ?_))
  have hfunction : Parses (Build.function (phrase d) name.lexeme (methodKind name) true)
      (Build.routine name.lexeme (methodKind name) (parameterList ns) (Decl.buildAll ss)) (ts ++ us)
      rest :=
    parses_function hns hss (by simp at hd; omega)
  exact hfunction.bind_done

/-- No members are read where the class ends. -/
theorem noMembers : (Nonterminal.members []).Parsed [] := by
  intro d rest items t us _ hrest ht hitems
  subst hrest
  cases items with
  | nil => simp at hitems
  | cons item items =>
    rw [Member.buildAll]
    refine .stop fun b hb => ?_
    rw [memberRound, atEnd, bind_assoc, bind_of_ok (peek_of_reads hb)]
    simp [ht]
    rfl

/-- Members are read one after the other. -/
theorem members {m : Member} {ms : List Member} (hm : (Nonterminal.member m).Parsed ts)
    (hfirst : (Nonterminal.member m).First ts) (hms : (Nonterminal.members ms).Parsed us) :
    (Nonterminal.members (m :: ms)).Parsed (ts ++ us) := by
  intro d rest items t vs hd hrest ht hitems
  obtain ⟨t₁, ts, rfl, ht₁⟩ := hfirst
  have hround : Parses (memberRound (phrase d)) (do m.build; return true) (t₁ :: ts)
      (us ++ rest) := by
    unfold memberRound
    refine .atEnd rfl ?_
    have hend : (decide (t₁.kind = .rightBrace) || decide (t₁.kind = .eof)) = false := by
      rcases ht₁ with h | h <;> rw [h] <;> rfl
    rw [hend, if_neg Bool.false_ne_true]
    exact (hm d _ (by simp at hd ⊢; omega)).bind_done
  cases items with
  | nil => simp at hitems
  | cons item items =>
    rw [Member.buildAll]
    refine .again hround (hms d rest items t vs (by simp at hd; omega) hrest ht ?_)
    simp only [List.length_append, List.length_cons] at hitems ⊢
    omega

/-- The superclass of a class, if it has one. -/
def optionalSuperclass (name : Token) : Build Unit := do
  if ← accept .colon then superclass name else pure ()

instance (name : Token) : Cumulative (optionalSuperclass name) := by
  unfold optionalSuperclass
  infer_instance

/-- The body of a class starts with its superclass, and its members stand in braces. -/
theorem classBody_eq (inner : Phrase → Build Unit) (name : Token) :
    classBody inner name = (do
      optionalSuperclass name
      readVariable name
      let _ ← Build.expect .braceBeforeClass
      repeatWhile (memberRound inner)
      let _ ← Build.expect .braceAfterClass
      emit .pop) := by
  unfold classBody optionalSuperclass
  rw [bind_assoc]
  refine bind_congr fun c => ?_
  cases c <;> simp

/-- A class from behind its keyword. -/
theorem parses_class {v : Build Unit} [Cumulative v] {ms : List Member} {tokens : List Token}
    (hname : name.kind = .identifier)
    (hv : Parses (optionalSuperclass name) v tokens (opening :: ts ++ [closing] ++ rest))
    (hopening : opening.kind = .leftBrace) (hms : (Nonterminal.members ms).Parsed ts)
    (hclosing : closing.kind = .rightBrace) (hd : ts.length < d) :
    Parses (classDeclaration (phrase d)) (classOf name v (Member.buildAll ms))
      (name :: (tokens ++ opening :: (ts ++ [closing]))) rest := by
  have hloop := hms d (closing :: rest) ((ts ++ closing :: rest).map .ok) closing rest hd rfl
    hclosing (by simp)
  have hbody : Parses (classBody (phrase d) name)
      (do v; readVariable name; pass; Member.buildAll ms; pass; emit .pop)
      (tokens ++ opening :: (ts ++ [closing])) rest := by
    rw [classBody_eq]
    refine hv.bind fun _ => .silent fun _ => .expect hopening ?_
    exact hloop.repeatWhile.bind fun _ => .expect hclosing (.done _)
  have hrest : Parses (do
        beginClass
        let outcome ← attempt (classBody (phrase d) name)
        endClass
        conclude outcome)
      (do
        beginClass
        (do v; readVariable name; pass; Member.buildAll ms; pass; emit .pop)
        endClass)
      (tokens ++ opening :: (ts ++ [closing])) rest :=
    .silent fun _ => .of_clean clean_attempt_last hbody.bind_done
  unfold classDeclaration
  refine (Parses.expect hname (.silent fun index => .silent fun _ => .silent fun _ =>
    .silent fun b => .silent fun _ => hrest)).congr ?_ rfl
  simp only [classOf, newClass, bind_assoc]

/-- A class without a superclass is read as one. -/
theorem classDecl {ms : List Member} (hkeyword : keyword.kind = .classKw)
    (hname : name.kind = .identifier) (hopening : opening.kind = .leftBrace)
    (hms : (Nonterminal.members ms).Parsed ts) (hclosing : closing.kind = .rightBrace) :
    (Nonterminal.declaration (.classDecl name none ms)).Parsed
      (keyword :: name :: opening :: ts ++ [closing]) := by
  refine of_tryDeclaration fun d rest _ _ hd _ _ => ?_
  unfold tryDeclaration
  refine .peek rfl ?_
  rw [hkeyword]
  refine .advance (by simp [hkeyword]) ?_
  have hv : Parses (optionalSuperclass name) (pure ()) [] (opening :: ts ++ [closing] ++ rest) :=
    .accept_else rfl (by simp [hopening]) (.done _)
  exact parses_class hname hv hopening hms hclosing (by simp at hd; omega)

/-- A superclass behind a colon is read as that of the class. -/
theorem parses_superclass {colon parent : Token} (hcolon : colon.kind = .colon)
    (hparent : parent.kind = .identifier) :
    Parses (optionalSuperclass name) (parentClass name parent) [colon, parent] rest := by
  unfold optionalSuperclass parentClass superclass
  refine .accept_then hcolon (by simp) (.expect hparent ?_)
  by_cases hself : parent.lexeme = name.lexeme
  · refine .never (fun b c b' h => ?_) fun b c b' h => ?_
    · rw [if_pos hself] at h
      obtain ⟨_, _, hfail, -⟩ := h.exists_ok
      simp [fail] at hfail
    · rw [decide_eq_true hself] at h
      obtain ⟨_, _, hfail, -⟩ := h.exists_ok
      simp [refuse, fail] at hfail
  · rw [if_neg hself, decide_eq_false hself, refuse, if_neg Bool.false_ne_true, pure_bind]
    exact .done _

/-- A class with a superclass is read as one. -/
theorem derivedClass {ms : List Member} {colon parent : Token} (hkeyword : keyword.kind = .classKw)
    (hname : name.kind = .identifier) (hcolon : colon.kind = .colon)
    (hparent : parent.kind = .identifier) (hopening : opening.kind = .leftBrace)
    (hms : (Nonterminal.members ms).Parsed ts) (hclosing : closing.kind = .rightBrace) :
    (Nonterminal.declaration (.classDecl name (some parent) ms)).Parsed
      (keyword :: name :: colon :: parent :: opening :: ts ++ [closing]) := by
  refine of_tryDeclaration fun d rest _ _ hd _ _ => ?_
  unfold tryDeclaration
  refine .peek rfl ?_
  rw [hkeyword]
  refine .advance (by simp [hkeyword]) ?_
  exact parses_class hname (parses_superclass hcolon hparent) hopening hms hclosing
    (by simp at hd; omega)

end Parsed

/-! ## All phrases -/

/-- **A phrase is read as its tree says.** -/
theorem Derives.parsed {n : Nonterminal} {ts : List Token} (h : Derives n ts) : n.Parsed ts := by
  -- By induction on the derivation, with one lemma for each rule; `first` supplies the token that
  -- the parser looks at to choose the rule.
  induction h with
  | tighter _ ih => exact Parsed.tighter ih
  | assign hname hsign _ ih => exact Parsed.assign hname hsign ih
  | setProperty _ hdot hname hsign _ ihr ihv => exact Parsed.setProperty ihr hdot hname hsign ihv
  | disjunction _ hsign _ ihl ihr => exact Parsed.disjunction ihl hsign ihr
  | conjunction _ hsign _ ihl ihr => exact Parsed.conjunction ihl hsign ihr
  | binary _ hsign _ ihl ihr => exact Parsed.binary ihl hsign ihr
  | unary hsign _ ih => exact Parsed.unary hsign ih
  | call _ hproperty hopening _ hclosing ihe ihes =>
    exact Parsed.call ihe hproperty hopening ihes hclosing
  | subscript _ hopening _ hclosing ihe ihi => exact Parsed.subscript ihe hopening ihi hclosing
  | property _ hdot hname ih => exact Parsed.property ih hdot hname
  | methodCall _ hdot hname hopening _ hclosing ihe ihes =>
    exact Parsed.methodCall ihe hdot hname hopening ihes hclosing
  | literal hkind => exact Parsed.literal hkind
  | ident hkind => exact Parsed.ident hkind
  | this hkind => exact Parsed.this hkind
  | inherited hkeyword hdot hname => exact Parsed.inherited hkeyword hdot hname
  | inheritedCall hkeyword hdot hname hopening _ hclosing ih =>
    exact Parsed.inheritedCall hkeyword hdot hname hopening ih hclosing
  | grouping hopening _ hclosing ih => exact Parsed.grouping hopening ih hclosing
  | array hopening _ hclosing ih => exact Parsed.array hopening ih hclosing
  | last _ ih => exact Parsed.last ih
  | more _ hcomma hes ihe ihes =>
      exact Parsed.more ihe hcomma ihes (Parsed.ne_nil_of_list hes _ rfl)
  | noList => exact Parsed.noList
  | someList hes ih => exact Parsed.someList ih hes.first
  | noDeclarations => exact Parsed.noDeclarations
  | declarations hd hds ihd ihds => exact Parsed.declarations ihd hd.first ihds hds.first
  | block hopening _ hclosing ih => exact Parsed.block hopening ih hclosing
  | print hkeyword _ hsemicolon ih => exact Parsed.print hkeyword ih hsemicolon
  | leave hkeyword hsemicolon => exact Parsed.leave hkeyword hsemicolon
  | leaveWith hkeyword he hsemicolon ih => exact Parsed.leaveWith hkeyword ih he.first hsemicolon
  | conditional hkeyword hd ih =>
    exact Parsed.conditional hkeyword ih (Parsed.buildConditional_of_derives hd _ rfl)
  | ifThen _ _ ihe ihds => exact Parsed.ifThen ihe ihds
  | ifElse _ _ hkeyword _ ihe ihds ihd => exact Parsed.ifElse ihe ihds hkeyword ihd
  | elseIf hkeyword hd ih =>
    exact Parsed.elseIf hkeyword ih (Parsed.buildConditional_of_derives hd _ rfl)
  | elseBlock _ ih => exact Parsed.elseBlock ih
  | loop hkeyword _ _ ihe ihds => exact Parsed.loop hkeyword ihe ihds
  | blockStatement _ ih => exact Parsed.blockStatement ih
  | expression he hsemicolon ih => exact Parsed.expression ih he.first hsemicolon
  | var hkeyword hname hsemicolon => exact Parsed.var hkeyword hname hsemicolon
  | varWith hkeyword hname hsign _ hsemicolon ih =>
    exact Parsed.varWith hkeyword hname hsign ih hsemicolon
  | lastName hname => exact Parsed.lastName hname
  | moreNames hname hcomma hns ih =>
    exact Parsed.moreNames hname hcomma ih (Parsed.ne_nil_of_names hns _ rfl)
  | noParameters hopening hclosing => exact Parsed.noParameters hopening hclosing
  | parameters hopening hns hclosing ih => exact Parsed.parameters hopening ih hns.first hclosing
  | func hkeyword hname _ _ ihns ihds => exact Parsed.func hkeyword hname ihns ihds
  | computed hkeyword hname _ ih => exact Parsed.computed hkeyword hname ih
  | method hname _ _ ihns ihds => exact Parsed.method hname ihns ihds
  | noMembers => exact Parsed.noMembers
  | members hm _ ihm ihms => exact Parsed.members ihm hm.first ihms
  | classDecl hkeyword hname hopening _ hclosing ih =>
    exact Parsed.classDecl hkeyword hname hopening ih hclosing
  | derivedClass hkeyword hname hcolon hparent hopening _ hclosing ih =>
    exact Parsed.derivedClass hkeyword hname hcolon hparent hopening ih hclosing

/-- **A whole source is read as its declarations say.** -/
theorem parses_declarations {ds : List Decl} {ts : List Token} {t : Token} {depth : Nat}
    (h : Derives (.declarations ds) ts) (ht : t.kind = .eof) (hd : ts.length < depth) :
    Parses (Build.declarations depth) (Decl.buildAll ds) ts [t] :=
  .repeatWhile (h.parsed depth [t] .eof _ t [] hd rfl ht (by simp) (by simp))

end ScriptVM
