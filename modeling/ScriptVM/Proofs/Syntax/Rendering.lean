/-
# Trees written as tokens

How an expression tree is written down: its tokens from left to right, with parentheses around a
part where the level of the part is too low for its place, or where a property that is read is
called as a value.  A tree may also have parentheses of its own, which are kept; those that are not
needed there are redundant.

* `Expr.level` is the level of an expression, as its outermost operator says.
* `Expr.rendered` puts the parentheses that are needed, and `Expr.bare` takes all of them away.
* `Expr.Spells` says which tokens a tree with its parentheses has.  It knows nothing of levels.

Main statement: the tokens of a rendered tree spell it by the rules of the grammar
(`Expr.derives_of_spells`).
-/
import ScriptVM.Proofs.Syntax.Recognition

namespace ScriptVM

/-! ## Levels -/

/-- The level of an operator between two operands that are both evaluated. -/
def TokenKind.signLevel : TokenKind → Precedence
  | .equalEqual | .bangEqual => .equality
  | .less | .greater | .lessEqual | .greaterEqual => .comparison
  | .plus | .minus => .term
  | _ => .factor

namespace Expr

/-- The level of an expression. -/
def level : Expr → Precedence
  | .assign _ _ | .setProperty _ _ _ => .assignment
  | .disjunction _ _ _ => .or
  | .conjunction _ _ _ => .and
  | .binary _ sign _ => sign.kind.signLevel
  | .unary _ _ => .unary
  | _ => .call

/-! ## Parentheses -/

/-- An expression in a place that asks for a level: in parentheses if its own level is lower. -/
def enclose (p : Precedence) (e : Expr) : Expr :=
  if e.level.rank < p.rank then .grouping e else e

/-- An expression that is called as a value: also in parentheses if it reads a property, since an
argument list behind that would belong to it. -/
def encloseCallee (e : Expr) : Expr :=
  if e.isProperty then .grouping e else e.enclose .call

mutual

/-- An expression with parentheses where they are needed, besides those that it has. -/
def rendered : Expr → Expr
  | .literal token => .literal token
  | .ident token => .ident token
  | .this keyword => .this keyword
  | .inherited keyword name => .inherited keyword name
  | .inheritedCall keyword name arguments => .inheritedCall keyword name (renderedList arguments)
  | .grouping inner => .grouping inner.rendered
  | .array bracket elements => .array bracket (renderedList elements)
  | .unary sign operand => .unary sign (operand.rendered.enclose .unary)
  -- These group to the left,
  | .binary left sign right =>
    .binary (left.rendered.enclose sign.kind.signLevel) sign
      (right.rendered.enclose sign.kind.signLevel.tighter)
  -- and these to the right.
  | .conjunction left sign right =>
    .conjunction (left.rendered.enclose .equality) sign (right.rendered.enclose .and)
  | .disjunction left sign right =>
    .disjunction (left.rendered.enclose .and) sign (right.rendered.enclose .or)
  | .call callee paren arguments =>
    .call callee.rendered.encloseCallee paren (renderedList arguments)
  | .subscript callee bracket index =>
    .subscript (callee.rendered.enclose .call) bracket index.rendered
  | .property receiver name => .property (receiver.rendered.enclose .call) name
  | .methodCall receiver name arguments =>
    .methodCall (receiver.rendered.enclose .call) name (renderedList arguments)
  | .assign name value => .assign name value.rendered
  | .setProperty receiver name value =>
    .setProperty (receiver.rendered.enclose .call) name value.rendered

/-- Expressions with parentheses where they are needed. -/
def renderedList : List Expr → List Expr
  | [] => []
  | e :: es => e.rendered :: renderedList es

end

mutual

/-- An expression without any parentheses. -/
def bare : Expr → Expr
  | .literal token => .literal token
  | .ident token => .ident token
  | .this keyword => .this keyword
  | .inherited keyword name => .inherited keyword name
  | .inheritedCall keyword name arguments => .inheritedCall keyword name (bareList arguments)
  | .grouping inner => inner.bare
  | .array bracket elements => .array bracket (bareList elements)
  | .unary sign operand => .unary sign operand.bare
  | .binary left sign right => .binary left.bare sign right.bare
  | .conjunction left sign right => .conjunction left.bare sign right.bare
  | .disjunction left sign right => .disjunction left.bare sign right.bare
  | .call callee paren arguments => .call callee.bare paren (bareList arguments)
  | .subscript callee bracket index => .subscript callee.bare bracket index.bare
  | .property receiver name => .property receiver.bare name
  | .methodCall receiver name arguments => .methodCall receiver.bare name (bareList arguments)
  | .assign name value => .assign name value.bare
  | .setProperty receiver name value => .setProperty receiver.bare name value.bare

/-- Expressions without any parentheses. -/
def bareList : List Expr → List Expr
  | [] => []
  | e :: es => e.bare :: bareList es

end

/-- Parentheses that a place asks for make no other tree. -/
@[simp] theorem bare_enclose (p : Precedence) (e : Expr) : (e.enclose p).bare = e.bare := by
  rw [enclose]
  split
  · rw [bare]
  · rfl

/-- Parentheses around what is called make no other tree. -/
@[simp] theorem bare_encloseCallee (e : Expr) : e.encloseCallee.bare = e.bare := by
  rw [encloseCallee]
  split
  · rw [bare]
  · rw [bare_enclose]

mutual

/-- The parentheses that are needed are the only change. -/
theorem bare_rendered (e : Expr) : e.rendered.bare = e.bare := by
  cases e with
  | literal token | ident token | this keyword | inherited keyword name => rw [rendered]
  | inheritedCall keyword name arguments =>
    rw [rendered, bare, bare, bareList_renderedList arguments]
  | grouping inner => rw [rendered, bare, bare, bare_rendered inner]
  | array bracket elements => rw [rendered, bare, bare, bareList_renderedList elements]
  | unary sign operand => rw [rendered, bare, bare, bare_enclose, bare_rendered operand]
  | binary left sign right | conjunction left sign right | disjunction left sign right =>
    rw [rendered, bare, bare, bare_enclose, bare_enclose, bare_rendered left, bare_rendered right]
  | call callee paren arguments =>
    rw [rendered, bare, bare, bare_encloseCallee, bare_rendered callee,
      bareList_renderedList arguments]
  | subscript callee bracket index =>
    rw [rendered, bare, bare, bare_enclose, bare_rendered callee, bare_rendered index]
  | property receiver name => rw [rendered, bare, bare, bare_enclose, bare_rendered receiver]
  | methodCall receiver name arguments =>
    rw [rendered, bare, bare, bare_enclose, bare_rendered receiver,
      bareList_renderedList arguments]
  | assign name value => rw [rendered, bare, bare, bare_rendered value]
  | setProperty receiver name value =>
    rw [rendered, bare, bare, bare_enclose, bare_rendered receiver, bare_rendered value]

/-- Parentheses make no other trees of a list. -/
theorem bareList_renderedList (es : List Expr) : bareList (renderedList es) = bareList es := by
  cases es with
  | nil => rw [renderedList]
  | cons e es =>
    rw [renderedList, bareList, bareList, bare_rendered e, bareList_renderedList es]

end

/-! ## Tokens -/

/-- What stands in front of the rest of a list: a comma, unless nothing is left. -/
def Divides (rest : List Expr) (ts : List Token) : Prop :=
  if rest.isEmpty then ts = [] else ∃ comma : Token, comma.kind = .comma ∧ ts = [comma]

mutual

/-- The tokens of an expression with its parentheses, from left to right.  A token that the tree
does not keep can be any of its kind. -/
def Spells : Expr → List Token → Prop
  | .literal token, ts => token.kind ∈ TokenKind.literals ∧ ts = [token]
  | .ident token, ts => token.kind = .identifier ∧ ts = [token]
  | .this keyword, ts => keyword.kind = .selfKw ∧ ts = [keyword]
  | .inherited keyword name, ts => keyword.kind = .superKw ∧ name.kind = .identifier ∧
      ∃ dot : Token, dot.kind = .dot ∧ ts = [keyword, dot, name]
  | .inheritedCall keyword name arguments, ts =>
      keyword.kind = .superKw ∧ name.kind = .identifier ∧
      ∃ (dot opening : Token) (us : List Token) (closing : Token), dot.kind = .dot ∧
        opening.kind = .leftParen ∧ SpellsList arguments us ∧ closing.kind = .rightParen ∧
        ts = keyword :: dot :: name :: opening :: us ++ [closing]
  | .grouping inner, ts => ∃ (opening : Token) (us : List Token) (closing : Token),
      opening.kind = .leftParen ∧ inner.Spells us ∧ closing.kind = .rightParen ∧
      ts = opening :: us ++ [closing]
  | .array bracket elements, ts => bracket.kind = .leftBracket ∧
      ∃ (us : List Token) (closing : Token), SpellsList elements us ∧
        closing.kind = .rightBracket ∧ ts = bracket :: us ++ [closing]
  | .unary sign operand, ts => sign.kind ∈ [.bang, .minus] ∧
      ∃ us, operand.Spells us ∧ ts = sign :: us
  | .binary left sign right, ts => sign.kind ∈ sign.kind.signLevel.signs ∧
      ∃ us vs, left.Spells us ∧ right.Spells vs ∧ ts = us ++ sign :: vs
  | .conjunction left sign right, ts => sign.kind = .andAnd ∧
      ∃ us vs, left.Spells us ∧ right.Spells vs ∧ ts = us ++ sign :: vs
  | .disjunction left sign right, ts => sign.kind = .orOr ∧
      ∃ us vs, left.Spells us ∧ right.Spells vs ∧ ts = us ++ sign :: vs
  | .call callee paren arguments, ts => paren.kind = .leftParen ∧
      ∃ (us vs : List Token) (closing : Token), callee.Spells us ∧ SpellsList arguments vs ∧
        closing.kind = .rightParen ∧ ts = us ++ paren :: vs ++ [closing]
  | .subscript callee bracket index, ts => bracket.kind = .leftBracket ∧
      ∃ (us vs : List Token) (closing : Token), callee.Spells us ∧ index.Spells vs ∧
        closing.kind = .rightBracket ∧ ts = us ++ bracket :: vs ++ [closing]
  | .property receiver name, ts => name.kind = .identifier ∧
      ∃ (us : List Token) (dot : Token), receiver.Spells us ∧ dot.kind = .dot ∧
        ts = us ++ [dot, name]
  | .methodCall receiver name arguments, ts => name.kind = .identifier ∧
      ∃ (us : List Token) (dot opening : Token) (vs : List Token) (closing : Token),
        receiver.Spells us ∧ dot.kind = .dot ∧ opening.kind = .leftParen ∧
        SpellsList arguments vs ∧ closing.kind = .rightParen ∧
        ts = us ++ dot :: name :: opening :: vs ++ [closing]
  | .assign name value, ts => name.kind = .identifier ∧
      ∃ (sign : Token) (us : List Token), sign.kind = .equal ∧ value.Spells us ∧
        ts = name :: sign :: us
  | .setProperty receiver name value, ts => name.kind = .identifier ∧
      ∃ (us : List Token) (dot sign : Token) (vs : List Token), receiver.Spells us ∧
        dot.kind = .dot ∧ sign.kind = .equal ∧ value.Spells vs ∧
        ts = us ++ dot :: name :: sign :: vs

/-- The tokens of expressions divided by commas. -/
def SpellsList : List Expr → List Token → Prop
  | [], ts => ts = []
  | e :: es, ts => ∃ us vs ws, e.Spells us ∧ Divides es vs ∧ SpellsList es ws ∧ ts = us ++ vs ++ ws

end

mutual

/-- The tokens that a tree keeps are of the right kinds. -/
def Formed : Expr → Prop
  | .literal token => token.kind ∈ TokenKind.literals
  | .ident token => token.kind = .identifier
  | .this keyword => keyword.kind = .selfKw
  | .inherited keyword name => keyword.kind = .superKw ∧ name.kind = .identifier
  | .inheritedCall keyword name arguments =>
    keyword.kind = .superKw ∧ name.kind = .identifier ∧ FormedList arguments
  | .grouping inner => inner.Formed
  | .array bracket elements => bracket.kind = .leftBracket ∧ FormedList elements
  | .unary sign operand => sign.kind ∈ [.bang, .minus] ∧ operand.Formed
  | .binary left sign right =>
    sign.kind ∈ sign.kind.signLevel.signs ∧ left.Formed ∧ right.Formed
  | .conjunction left sign right => sign.kind = .andAnd ∧ left.Formed ∧ right.Formed
  | .disjunction left sign right => sign.kind = .orOr ∧ left.Formed ∧ right.Formed
  | .call callee paren arguments => paren.kind = .leftParen ∧ callee.Formed ∧ FormedList arguments
  | .subscript callee bracket index => bracket.kind = .leftBracket ∧ callee.Formed ∧ index.Formed
  | .property receiver name => name.kind = .identifier ∧ receiver.Formed
  | .methodCall receiver name arguments =>
    name.kind = .identifier ∧ receiver.Formed ∧ FormedList arguments
  | .assign name value => name.kind = .identifier ∧ value.Formed
  | .setProperty receiver name value => name.kind = .identifier ∧ receiver.Formed ∧ value.Formed

/-- The tokens that trees keep are of the right kinds. -/
def FormedList : List Expr → Prop
  | [] => True
  | e :: es => e.Formed ∧ FormedList es

end

/-! ### Every tree can be written -/

/-- Parentheses that a place asks for keep the kinds of tokens. -/
@[simp] theorem formed_enclose (p : Precedence) (e : Expr) :
    (e.enclose p).Formed ↔ e.Formed := by
  rw [enclose]
  split
  · rw [Formed]
  · rfl

/-- Parentheses around what is called keep the kinds of tokens. -/
@[simp] theorem formed_encloseCallee (e : Expr) : e.encloseCallee.Formed ↔ e.Formed := by
  rw [encloseCallee]
  split
  · rw [Formed]
  · rw [formed_enclose]

mutual

/-- Parentheses keep the kinds of tokens. -/
theorem formed_rendered (e : Expr) : e.rendered.Formed ↔ e.Formed := by
  cases e with
  | literal token | ident token | this keyword | inherited keyword name => rw [rendered]
  | inheritedCall keyword name arguments =>
    rw [rendered, Formed, Formed, formedList_renderedList arguments]
  | grouping inner => rw [rendered, Formed, Formed, formed_rendered inner]
  | array bracket elements => rw [rendered, Formed, Formed, formedList_renderedList elements]
  | unary sign operand => rw [rendered, Formed, Formed, formed_enclose, formed_rendered operand]
  | binary left sign right | conjunction left sign right | disjunction left sign right =>
    rw [rendered, Formed, Formed, formed_enclose, formed_enclose, formed_rendered left,
      formed_rendered right]
  | call callee paren arguments =>
    rw [rendered, Formed, Formed, formed_encloseCallee, formed_rendered callee,
      formedList_renderedList arguments]
  | subscript callee bracket index =>
    rw [rendered, Formed, Formed, formed_enclose, formed_rendered callee, formed_rendered index]
  | property receiver name =>
      rw [rendered, Formed, Formed, formed_enclose, formed_rendered receiver]
  | methodCall receiver name arguments =>
    rw [rendered, Formed, Formed, formed_enclose, formed_rendered receiver,
      formedList_renderedList arguments]
  | assign name value => rw [rendered, Formed, Formed, formed_rendered value]
  | setProperty receiver name value =>
    rw [rendered, Formed, Formed, formed_enclose, formed_rendered receiver, formed_rendered value]

/-- Parentheses keep the kinds of tokens in a list. -/
theorem formedList_renderedList (es : List Expr) : FormedList (renderedList es) ↔
    FormedList es := by
  cases es with
  | nil => rw [renderedList]
  | cons e es =>
    rw [renderedList, FormedList, FormedList, formed_rendered e, formedList_renderedList es]

end

/-- A token of a kind. -/
def mark (kind : TokenKind) : Token := ⟨kind, "", 0, 0⟩

/-- The elements of a list can be divided by tokens. -/
theorem exists_divides (es : List Expr) : ∃ ts, Divides es ts := by
  by_cases hempty : es.isEmpty = true
  · refine ⟨[], ?_⟩
    rw [Divides, if_pos hempty]
  · refine ⟨[mark .comma], ?_⟩
    rw [Divides, if_neg hempty]
    exact ⟨_, rfl, rfl⟩

mutual

/-- Every tree has tokens. -/
theorem Formed.exists_spells {e : Expr} (h : e.Formed) : ∃ ts, e.Spells ts := by
  -- The marks between the parts are free, so each form is spelled with one of its own for each of
  -- them.
  cases e with
  | literal token | ident token | this keyword =>
    rw [Formed] at h
    exact ⟨_, by rw [Spells]; exact ⟨h, rfl⟩⟩
  | inherited keyword name =>
    rw [Formed] at h
    exact ⟨_, by rw [Spells]; exact ⟨h.1, h.2, mark .dot, rfl, rfl⟩⟩
  | inheritedCall keyword name arguments =>
    rw [Formed] at h
    obtain ⟨us, hus⟩ := h.2.2.exists_spellsList
    exact ⟨_, by
      rw [Spells]
      exact ⟨h.1, h.2.1, mark .dot, mark .leftParen, us, mark .rightParen, rfl, rfl, hus, rfl, rfl⟩⟩
  | grouping inner =>
    rw [Formed] at h
    obtain ⟨us, hus⟩ := h.exists_spells
    exact ⟨_, by rw [Spells]; exact ⟨mark .leftParen, us, mark .rightParen, rfl, hus, rfl, rfl⟩⟩
  | array bracket elements =>
    rw [Formed] at h
    obtain ⟨us, hus⟩ := h.2.exists_spellsList
    exact ⟨_, by rw [Spells]; exact ⟨h.1, us, mark .rightBracket, hus, rfl, rfl⟩⟩
  | unary sign operand =>
    rw [Formed] at h
    obtain ⟨us, hus⟩ := h.2.exists_spells
    exact ⟨_, by rw [Spells]; exact ⟨h.1, us, hus, rfl⟩⟩
  | binary left sign right | conjunction left sign right | disjunction left sign right =>
    rw [Formed] at h
    obtain ⟨us, hus⟩ := h.2.1.exists_spells
    obtain ⟨vs, hvs⟩ := h.2.2.exists_spells
    exact ⟨_, by rw [Spells]; exact ⟨h.1, us, vs, hus, hvs, rfl⟩⟩
  | call callee paren arguments =>
    rw [Formed] at h
    obtain ⟨us, hus⟩ := h.2.1.exists_spells
    obtain ⟨vs, hvs⟩ := h.2.2.exists_spellsList
    exact ⟨_, by rw [Spells]; exact ⟨h.1, us, vs, mark .rightParen, hus, hvs, rfl, rfl⟩⟩
  | subscript callee bracket index =>
    rw [Formed] at h
    obtain ⟨us, hus⟩ := h.2.1.exists_spells
    obtain ⟨vs, hvs⟩ := h.2.2.exists_spells
    exact ⟨_, by rw [Spells]; exact ⟨h.1, us, vs, mark .rightBracket, hus, hvs, rfl, rfl⟩⟩
  | property receiver name =>
    rw [Formed] at h
    obtain ⟨us, hus⟩ := h.2.exists_spells
    exact ⟨_, by rw [Spells]; exact ⟨h.1, us, mark .dot, hus, rfl, rfl⟩⟩
  | methodCall receiver name arguments =>
    rw [Formed] at h
    obtain ⟨us, hus⟩ := h.2.1.exists_spells
    obtain ⟨vs, hvs⟩ := h.2.2.exists_spellsList
    exact ⟨_, by
      rw [Spells]
      exact ⟨h.1, us, mark .dot, mark .leftParen, vs, mark .rightParen, hus, rfl, rfl,
        hvs, rfl, rfl⟩⟩
  | assign name value =>
    rw [Formed] at h
    obtain ⟨us, hus⟩ := h.2.exists_spells
    exact ⟨_, by rw [Spells]; exact ⟨h.1, mark .equal, us, rfl, hus, rfl⟩⟩
  | setProperty receiver name value =>
    rw [Formed] at h
    obtain ⟨us, hus⟩ := h.2.1.exists_spells
    obtain ⟨vs, hvs⟩ := h.2.2.exists_spells
    exact ⟨_, by rw [Spells]; exact ⟨h.1, us, mark .dot, mark .equal, vs, hus, rfl, rfl, hvs, rfl⟩⟩

/-- Every list of well-formed trees has a spelling. -/
theorem FormedList.exists_spellsList {es : List Expr} (h : FormedList es) :
    ∃ ts, SpellsList es ts := by
  cases es with
  | nil => exact ⟨[], by rw [SpellsList]⟩
  | cons e es =>
    rw [FormedList] at h
    obtain ⟨us, hus⟩ := h.1.exists_spells
    obtain ⟨vs, hvs⟩ := exists_divides es
    obtain ⟨ws, hws⟩ := h.2.exists_spellsList
    exact ⟨_, by rw [SpellsList]; exact ⟨us, vs, ws, hus, hvs, hws, rfl⟩⟩

end

/-! ## The grammar derives what is rendered -/

theorem level_rendered (e : Expr) : e.rendered.level = e.level := by
  cases e <;> rw [rendered] <;> rfl

/-- In a place that asks for a level, an expression is one of that level. -/
theorem derives_enclose {e : Expr} {p : Precedence} {ts : List Token}
    (h : ∀ ts, e.Spells ts → Derives (.expression e.level e) ts) (hts : (e.enclose p).Spells ts) :
    Derives (.expression p (e.enclose p)) ts := by
  rw [enclose] at hts ⊢
  split
  · next hlow =>
    rw [if_pos hlow, Spells] at hts
    obtain ⟨opening, us, closing, hopening, hus, hclosing, rfl⟩ := hts
    have hinner : Derives (.expression .assignment e) us := (h us hus).weaken (Nat.zero_le _)
    refine (Derives.grouping hopening hinner hclosing).weaken ?_
    cases p <;> decide
  · next hhigh =>
    rw [if_neg hhigh] at hts
    exact (h ts hts).weaken (Nat.le_of_not_lt hhigh)

/-- What is called as a value does not read a property. -/
theorem derives_encloseCallee {e : Expr} {ts : List Token}
    (h : ∀ ts, e.Spells ts → Derives (.expression e.level e) ts)
    (hts : e.encloseCallee.Spells ts) :
    Derives (.expression .call e.encloseCallee) ts ∧ e.encloseCallee.isProperty = false := by
  rw [encloseCallee] at hts ⊢
  split
  · next hproperty =>
    rw [if_pos hproperty, Spells] at hts
    obtain ⟨opening, us, closing, hopening, hus, hclosing, rfl⟩ := hts
    have hinner : Derives (.expression .assignment e) us := (h us hus).weaken (Nat.zero_le _)
    exact ⟨.grouping hopening hinner hclosing, rfl⟩
  · next hother =>
    rw [if_neg hother] at hts
    refine ⟨derives_enclose h hts, ?_⟩
    rw [enclose]
    split
    · rfl
    · simpa using hother

mutual

/-- **The tokens of a rendered tree spell it by the rules of the grammar.** -/
theorem derives_of_spells (e : Expr) (ts : List Token) (h : e.rendered.Spells ts) :
    Derives (.expression e.rendered.level e.rendered) ts := by
  -- Every rule of `Spells` is a rule of the grammar once the operands are put in parentheses, which
  -- `derives_enclose` does where their level asks for it.
  rw [level_rendered]
  cases e with
  | literal token =>
    rw [rendered, Spells] at h
    obtain ⟨hkind, rfl⟩ := h
    exact .literal hkind
  | ident token =>
    rw [rendered, Spells] at h
    obtain ⟨hkind, rfl⟩ := h
    exact .ident hkind
  | this keyword =>
    rw [rendered, Spells] at h
    obtain ⟨hkind, rfl⟩ := h
    exact .this hkind
  | inherited keyword name =>
    rw [rendered, Spells] at h
    obtain ⟨hkeyword, hname, dot, hdot, rfl⟩ := h
    exact .inherited hkeyword hdot hname
  | inheritedCall keyword name arguments =>
    rw [rendered, Spells] at h
    obtain ⟨hkeyword, hname, dot, opening, us, closing, hdot, hopening, hus, hclosing, rfl⟩ := h
    exact .inheritedCall hkeyword hdot hname hopening (derives_of_spellsList arguments us hus)
      hclosing
  | grouping inner =>
    rw [rendered, Spells] at h
    obtain ⟨opening, us, closing, hopening, hus, hclosing, rfl⟩ := h
    exact .grouping hopening ((derives_of_spells inner us hus).weaken (Nat.zero_le _)) hclosing
  | array bracket elements =>
    rw [rendered, Spells] at h
    obtain ⟨hbracket, us, closing, hus, hclosing, rfl⟩ := h
    exact .array hbracket (derives_of_spellsList elements us hus) hclosing
  | unary sign operand =>
    rw [rendered, Spells] at h
    obtain ⟨hsign, us, hus, rfl⟩ := h
    exact .unary hsign (derives_enclose (derives_of_spells operand) hus)
  | binary left sign right =>
    rw [rendered, Spells] at h
    obtain ⟨hsign, us, vs, hus, hvs, rfl⟩ := h
    exact .binary (derives_enclose (derives_of_spells left) hus) hsign
      (derives_enclose (derives_of_spells right) hvs)
  | conjunction left sign right =>
    rw [rendered, Spells] at h
    obtain ⟨hsign, us, vs, hus, hvs, rfl⟩ := h
    exact .conjunction (derives_enclose (derives_of_spells left) hus) hsign
      (derives_enclose (derives_of_spells right) hvs)
  | disjunction left sign right =>
    rw [rendered, Spells] at h
    obtain ⟨hsign, us, vs, hus, hvs, rfl⟩ := h
    exact .disjunction (derives_enclose (derives_of_spells left) hus) hsign
      (derives_enclose (derives_of_spells right) hvs)
  | call callee paren arguments =>
    rw [rendered, Spells] at h
    -- A property that is called is a method call, so a callee that reads one is enclosed too.
    obtain ⟨hparen, us, vs, closing, hus, hvs, hclosing, rfl⟩ := h
    obtain ⟨hcallee, hproperty⟩ := derives_encloseCallee (derives_of_spells callee) hus
    exact .call hcallee hproperty hparen (derives_of_spellsList arguments vs hvs) hclosing
  | subscript callee bracket index =>
    rw [rendered, Spells] at h
    obtain ⟨hbracket, us, vs, closing, hus, hvs, hclosing, rfl⟩ := h
    exact .subscript (derives_enclose (derives_of_spells callee) hus) hbracket
      ((derives_of_spells index vs hvs).weaken (Nat.zero_le _)) hclosing
  | property receiver name =>
    rw [rendered, Spells] at h
    obtain ⟨hname, us, dot, hus, hdot, rfl⟩ := h
    exact .property (derives_enclose (derives_of_spells receiver) hus) hdot hname
  | methodCall receiver name arguments =>
    rw [rendered, Spells] at h
    obtain ⟨hname, us, dot, opening, vs, closing, hus, hdot, hopening, hvs, hclosing, rfl⟩ := h
    exact .methodCall (derives_enclose (derives_of_spells receiver) hus) hdot hname hopening
      (derives_of_spellsList arguments vs hvs) hclosing
  | assign name value =>
    rw [rendered, Spells] at h
    obtain ⟨hname, sign, us, hsign, hus, rfl⟩ := h
    exact .assign hname hsign ((derives_of_spells value us hus).weaken (Nat.zero_le _))
  | setProperty receiver name value =>
    rw [rendered, Spells] at h
    obtain ⟨hname, us, dot, sign, vs, hus, hdot, hsign, hvs, rfl⟩ := h
    exact .setProperty (derives_enclose (derives_of_spells receiver) hus) hdot hname hsign
      ((derives_of_spells value vs hvs).weaken (Nat.zero_le _))

/-- The same for a list of trees. -/
theorem derives_of_spellsList (es : List Expr) (ts : List Token)
    (h : SpellsList (renderedList es) ts) : Derives (.optionalList (renderedList es)) ts := by
  cases es with
  | nil =>
    rw [renderedList, SpellsList] at h
    rw [h, renderedList]
    exact .noList
  | cons e es =>
    rw [renderedList, SpellsList] at h
    obtain ⟨us, vs, ws, hus, hvs, hws, rfl⟩ := h
    have he : Derives (.expression .assignment e.rendered) us :=
      (derives_of_spells e us hus).weaken (Nat.zero_le _)
    have hes := derives_of_spellsList es ws hws
    rw [renderedList]
    refine .someList ?_
    -- The rest of the list is there behind a comma, or nothing is.
    generalize renderedList es = rest at hvs hes
    cases hes with
    | noList =>
      rw [show vs = [] by simpa [Divides] using hvs, List.append_nil, List.append_nil]
      exact .last he
    | someList hlist =>
      cases rest with
      | nil => cases hlist
      | cons e' rest =>
        obtain ⟨comma, hcomma, rfl⟩ : ∃ comma : Token, comma.kind = .comma ∧ vs = [comma] := by
          simpa [Divides] using hvs
        rw [List.append_assoc, List.singleton_append]
        exact .more he hcomma hlist

end

end Expr

end ScriptVM
