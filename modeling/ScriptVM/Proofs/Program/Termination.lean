/-
# Building a program ends

The depth of the phrases and the rounds of the loops are bounded, and a bound that is used up is a
complaint of its own.  It never is: every phrase takes the token that it starts with, every loop
takes a token in each round but the last, and the end token is never taken.  So building ends on any
tokens, in order or not, and a greater depth makes no difference (`Ends`).

Main statement: `Builder.Ending.declaration_takes`.
-/
import ScriptVM.Proofs.Program.Nesting
import ScriptVM.Proofs.Token.Tiling

namespace ScriptVM

/-! ## What is left to read -/

namespace Builder

/-- The tokens that are left. -/
def tokens (b : Builder) : List Token :=
  b.pending.filterMap (·.toOption)

/-- What is left ends with an end token. -/
def Ending (b : Builder) : Prop :=
  ∃ front last, b.pending = front ++ [.ok last] ∧ last.kind = .eof

/-- What is left to be read ends with the end token. -/
theorem Ending.tokens_eq {b : Builder} (h : b.Ending) :
    ∃ front last, b.tokens = front ++ [last] ∧ last.kind = .eof := by
  obtain ⟨front, last, hpending, hlast⟩ := h
  refine ⟨front.filterMap (·.toOption), last, ?_, hlast⟩
  rw [tokens, hpending, List.filterMap_append]
  rfl

theorem Ending.exists_cons {b : Builder} (h : b.Ending) : ∃ t ts, b.tokens = t :: ts := by
  obtain ⟨front, last, htokens, -⟩ := h.tokens_eq
  exact List.exists_cons_of_ne_nil (by simp [htokens])

end Builder

/-- A cause other than a bound that is used up. -/
class ErrorKind.Regular (kind : ErrorKind) : Prop where
  /-- It is another cause. -/
  ne : kind ≠ .nestingTooDeep

/-- The complaints that are made on the way have regular causes, and items are read from the front,
up to the end token at most. -/
structure Builder.Passed (b b' : Builder) : Prop where
  /-- Items are read from the front. -/
  pending : b'.pending <:+ b.pending
  /-- The end token is left. -/
  ending : b'.Ending
  /-- Complaints are added, and none of them is that a bound is used up. -/
  errors : ∃ new, b'.errors.toList = b.errors.toList ++ new ∧ ∀ e ∈ new, e.kind.Regular

namespace Builder

variable {b b' b'' : Builder}

/-- A builder with the same tokens and complaints has passed nothing. -/
theorem Passed.of_eq (h : b.Ending) (hpending : b'.pending = b.pending)
    (herrors : b'.errors = b.errors) : b.Passed b' where
  pending := hpending ▸ List.suffix_refl _
  ending := by rwa [Ending, hpending]
  errors := ⟨[], by simp [herrors], by simp⟩

/-- Builders pass tokens one after the other. -/
theorem Passed.trans (h₁ : b.Passed b') (h₂ : b'.Passed b'') : b.Passed b'' where
  pending := h₂.pending.trans h₁.pending
  ending := h₂.ending
  errors := by
    obtain ⟨new, hnew, hregular⟩ := h₁.errors
    obtain ⟨new', hnew', hregular'⟩ := h₂.errors
    refine ⟨new ++ new', by rw [hnew', hnew, List.append_assoc], fun e he => ?_⟩
    rcases List.mem_append.1 he with he | he
    · exact hregular e he
    · exact hregular' e he

/-- A regular complaint passes nothing. -/
theorem Passed.push (hb : b.Ending) {e : CompileError} (he : e.kind.Regular) :
    b.Passed { b with errors := b.errors.push e } where
  pending := List.suffix_refl _
  ending := hb
  errors := ⟨[e], Array.toList_push, by simpa using he⟩

theorem Passed.tokens (h : b.Passed b') : b'.tokens <:+ b.tokens :=
  h.pending.filterMap _

theorem Passed.length_le (h : b.Passed b') : b'.tokens.length ≤ b.tokens.length :=
  h.tokens.length_le

end Builder

namespace Build

variable {α β : Type}

/-! ## Steps that end -/

/-- Two steps do the same here, and no bound is used up. -/
structure EndsAt (b : Builder) (x y : Build α) : Prop where
  /-- They do the same. -/
  agree : x b = y b
  /-- No bound is used up inside. -/
  passed : b.Passed (after x b)
  /-- No bound is used up at the end. -/
  regular : ∀ e b', x b = .error e b' → e.kind.Regular

/-- Two steps that do the same where at most `n` tokens are left, without using up a bound. -/
class Ends (n : Nat) (x y : Build α) : Prop where
  /-- This is so in every state. -/
  ends : ∀ b : Builder, b.Ending → b.tokens.length ≤ n → EndsAt b x y

/-- Two steps end here, and take a token unless the end token is next. -/
structure MovesAt (b : Builder) (x y : Build α) : Prop extends EndsAt b x y where
  /-- A token is taken. -/
  moved : ∀ t ts, b.tokens = t :: ts → t.kind ≠ .eof →
    (after x b).tokens.length < b.tokens.length

/-- Two steps that end where at most `n` tokens are left, and take one unless it is the end
token. -/
class Moves (n : Nat) (x y : Build α) : Prop where
  /-- This is so in every state. -/
  moves : ∀ b : Builder, b.Ending → b.tokens.length ≤ n → MovesAt b x y

instance {n : Nat} {x y : Build α} [h : Moves n x y] : Ends n x y :=
  ⟨fun b hb hlen => (h.moves b hb hlen).toEndsAt⟩

/-- A step takes a token if this is its result. -/
def Takes (n : Nat) (x : Build α) (a : α) : Prop :=
  ∀ b b' : Builder, b.Ending → b.tokens.length ≤ n → x b = .ok a b' →
    b'.tokens.length < b.tokens.length

/-- Rounds of a repetition: one that asks for another takes a token. -/
class Rounds (n : Nat) (round round' : Build Bool) : Prop extends Ends n round round' where
  /-- There are fewer tokens for the next round. -/
  takes : Takes n round true

/-- A sequence that succeeds has a first part that does, and a second one behind it. -/
theorem ok_bind {x : Build α} {f : α → Build β} {b b' : Builder} {c : β}
    (h : (x >>= f) b = .ok c b') : ∃ a b₁, x b = .ok a b₁ ∧ f a b₁ = .ok c b' := by
  rcases hx : x b with ⟨a, b₁⟩ | ⟨e, b₁⟩
  · rw [bind_of_ok hx] at h
    exact ⟨a, b₁, rfl, h⟩
  · rw [bind_of_error hx] at h
    cases h

/-- Steps one behind the other end alike, if they do so from wherever the first ones lead. -/
theorem EndsAt.bind {b : Builder} {x x' : Build α} {f f' : α → Build β} (hx : EndsAt b x x')
    (hf : ∀ a b₁, x b = .ok a b₁ → b.Passed b₁ → EndsAt b₁ (f a) (f' a)) :
    EndsAt b (x >>= f) (x' >>= f') := by
  have hagree := hx.agree
  have hpassed := hx.passed
  rcases h : x b with ⟨a, b₁⟩ | ⟨e, b₁⟩
  · rw [after_of_ok h] at hpassed
    have hthen := hf a b₁ h hpassed
    constructor
    · rw [bind_of_ok h, bind_of_ok (hagree ▸ h), hthen.agree]
    · rw [after_congr (bind_of_ok h)]
      exact hpassed.trans hthen.passed
    · rw [bind_of_ok h]
      exact hthen.regular
  · rw [after_of_error h] at hpassed
    constructor
    · rw [bind_of_error h, bind_of_error (hagree ▸ h)]
    · rwa [after_of_error (bind_of_error h)]
    · intro e' b' hrun
      rw [bind_of_error h] at hrun
      cases hrun
      exact hx.regular _ _ h

section

variable {n : Nat} {x x' : Build α} {f f' : α → Build β}

theorem Moves.refl (h : Moves n x x') : Moves n x x where
  moves b hb hlen :=
    have hat := h.moves b hb hlen
    ⟨⟨rfl, hat.passed, hat.regular⟩, hat.moved⟩

theorem Ends.passed {b b' : Builder} {a : α} (h : Ends n x x') (hb : b.Ending)
    (hlen : b.tokens.length ≤ n) (hrun : x b = .ok a b') : b.Passed b' := by
  have hpassed := (h.ends b hb hlen).passed
  rwa [after_of_ok hrun] at hpassed

/-- What follows a step that has taken a token takes no token back. -/
theorem MovesAt.bind {b : Builder} (hx : MovesAt b x x')
    (hf : ∀ a b₁, x b = .ok a b₁ → b.Passed b₁ → EndsAt b₁ (f a) (f' a)) :
    MovesAt b (x >>= f) (x' >>= f') where
  toEndsAt := hx.toEndsAt.bind hf
  moved t ts htokens ht := by
    have hlt := hx.moved t ts htokens ht
    have hpassed := hx.passed
    rcases after_bind (x := x) (f := f) b with ⟨a, b₁, h, hafter⟩ | ⟨e, b₁, h, hafter⟩
    · rw [after_of_ok h] at hlt hpassed
      rw [hafter]
      exact Nat.lt_of_le_of_lt (hf a b₁ h hpassed).passed.length_le hlt
    · rwa [hafter, ← after_of_error h]

theorem Ends.bind (hx : Ends n x x') (hf : ∀ a, Ends n (f a) (f' a)) :
    Ends n (x >>= f) (x' >>= f') where
  ends b hb hlen := (hx.ends b hb hlen).bind fun a b₁ _ hpassed =>
    (hf a).ends b₁ hpassed.ending (Nat.le_trans hpassed.length_le hlen)

instance [Ends n x x'] [∀ a, Ends n (f a) (f' a)] : Ends n (x >>= f) (x' >>= f') :=
  .bind inferInstance inferInstance

end

section

variable {n : Nat} {x x' : Build α} {f f' : α → Build β} {c : β}

/-- What is taken by the second step is taken by both. -/
theorem Takes.bind_right (hx : Ends n x x') (hf : ∀ a, Takes n (f a) c) : Takes n (x >>= f) c := by
  intro b b' hb hlen hrun
  obtain ⟨a, b₁, hx₁, hrun⟩ := ok_bind hrun
  have hpassed := hx.passed hb hlen hx₁
  have hle := hpassed.length_le
  exact Nat.lt_of_lt_of_le (hf a b₁ b' hpassed.ending (Nat.le_trans hle hlen) hrun) hle

theorem Takes.behind [hx : Ends n x x] (hf : ∀ a, Takes n (f a) c) : Takes n (x >>= f) c :=
  .bind_right hx hf

/-- What is taken by the first step is taken by both. -/
theorem Takes.ahead [hends : Ends n x x] [hthen : ∀ a, Ends n (f a) (f a)]
    (hx : ∀ a, Takes n x a) : Takes n (x >>= f) c := by
  intro b b' hb hlen hrun
  obtain ⟨a, b₁, hx₁, hrun⟩ := ok_bind hrun
  have hpassed := hends.passed hb hlen hx₁
  have hlen₁ := Nat.le_trans hpassed.length_le hlen
  exact Nat.lt_of_le_of_lt ((hthen a).passed hpassed.ending hlen₁ hrun).length_le
    (hx a b b₁ hb hlen hx₁)

/-- Behind a step that takes a token wherever it succeeds there are fewer. -/
theorem Moves.bind (hx : Moves n x x') (htakes : ∀ a, Takes n x a)
    (hf : ∀ m, m < n → ∀ a, Ends m (f a) (f' a)) : Moves n (x >>= f) (x' >>= f') where
  moves b hb hlen := (hx.moves b hb hlen).bind fun a b₁ hrun hpassed => by
    have hlt := Nat.lt_of_lt_of_le (htakes a b b₁ hb hlen hrun) hlen
    exact (hf _ hlt a).ends b₁ hpassed.ending (Nat.le_refl _)

theorem takes_fail (token : Token) (kind : ErrorKind) (a : α) : Takes n (fail token kind) a := by
  intro b b' _ _ hrun
  cases hrun

end

/-- A step that reads nothing and has no complaint. -/
theorem ends_quiet {n : Nat} {x : Build α}
    (h : ∀ b, ∃ a b', x b = .ok a b' ∧ b'.pending = b.pending ∧ b'.errors = b.errors) :
    Ends n x x where
  ends b hb _ := by
    obtain ⟨a, b', hrun, hpending, herrors⟩ := h b
    refine ⟨rfl, ?_, fun e b₁ hrun' => ?_⟩
    · rw [after_of_ok hrun]
      exact .of_eq hb hpending herrors
    · rw [hrun] at hrun'
      cases hrun'

theorem ends_modify {n : Nat} {f : Builder → Builder} (hpending : ∀ b, (f b).pending = b.pending)
    (herrors : ∀ b, (f b).errors = b.errors) : Ends n (modify f : Build Unit) (modify f) :=
  ends_quiet fun b => ⟨(), f b, rfl, hpending b, herrors b⟩

section

variable {n : Nat}

instance (a : α) : Ends n (pure a : Build α) (pure a) := ends_quiet fun b => ⟨a, b, rfl, rfl, rfl⟩

instance : Ends n (get : Build Builder) get := ends_quiet fun b => ⟨b, b, rfl, rfl, rfl⟩

/-- Steps that fail at once with a regular complaint end alike. -/
theorem endsAt_error {x y : Build α} {b : Builder} {e : CompileError} (hb : b.Ending)
    (hx : x b = .error e b) (hy : y b = .error e b) (he : e.kind.Regular) : EndsAt b x y where
  agree := hx.trans hy.symm
  passed := by
    rw [after_of_error hx]
    exact .of_eq hb rfl rfl
  regular e' b' hrun := by
    rw [hx] at hrun
    cases hrun
    exact he

theorem ends_throw {e : CompileError} (he : e.kind.Regular) :
    Ends n (throw e : Build α) (throw e) :=
  ⟨fun _ hb _ => endsAt_error hb rfl rfl he⟩

instance (token : Token) (kind : ErrorKind) [h : kind.Regular] :
    Ends n (fail token kind : Build α) (fail token kind) :=
  ⟨fun _ hb _ => endsAt_error hb rfl rfl h⟩

/-- What follows a failure never runs. -/
instance (token : Token) (kind : ErrorKind) [h : kind.Regular] (f f' : α → Build β) :
    Ends n (fail token kind >>= f) (fail token kind >>= f') :=
  ⟨fun _ hb _ => endsAt_error hb rfl rfl h⟩

instance (f : α → β) (x y : Build α) [hxy : Ends n x y] : Ends n (f <$> x) (f <$> y) :=
  inferInstanceAs (Ends n (x >>= fun a => pure (f a)) (y >>= fun a => pure (f a)))

instance (c : Prop) [Decidable c] (x x' y y' : Build α) [Ends n x x'] [Ends n y y'] :
    Ends n (if c then x else y) (if c then x' else y') := by
  split <;> infer_instance

theorem ends_note {e : CompileError} (he : e.kind.Regular) : Ends n (note e) (note e) where
  ends _ hb _ := ⟨rfl, .push hb he, fun _ _ hrun => by cases hrun⟩

instance (token : Token) (kind : ErrorKind) [h : kind.Regular] :
    Ends n (noteAt token kind) (noteAt token kind) where
  ends _ hb _ := ⟨rfl, .push hb h, fun _ _ hrun => by cases hrun⟩

/-- Steps that end alike do so when they are tried. -/
theorem EndsAt.attempt {b : Builder} {x x' : Build α} (h : EndsAt b x x') :
    EndsAt b (attempt x) (attempt x') where
  agree := by rw [Build.attempt, Build.attempt, h.agree]
  passed := by
    rw [after_attempt]
    exact h.passed
  regular e b' hrun := by
    obtain ⟨outcome, hok⟩ := attempt_ok x b
    rw [hok] at hrun
    cases hrun

/-- What is tried and fails has a regular complaint. -/
theorem EndsAt.regular_of_attempt {b b' : Builder} {x x' : Build α} {e : CompileError}
    (h : EndsAt b x x') (hrun : Build.attempt x b = .ok (.error e) b') : e.kind.Regular := by
  rw [Build.attempt] at hrun
  rcases hx : x b with ⟨a, b₁⟩ | ⟨e', b₁⟩
  · rw [hx] at hrun
    cases hrun
  · rw [hx] at hrun
    cases hrun
    exact h.regular _ _ hx

/-- A step that is tried, and what follows in either case. -/
theorem Ends.attempt {x x' : Build α} {f f' : Except CompileError α → Build β} (hx : Ends n x x')
    (hok : ∀ a, Ends n (f (.ok a)) (f' (.ok a)))
    (herror : ∀ e : CompileError, e.kind.Regular → Ends n (f (.error e)) (f' (.error e))) :
    Ends n (attempt x >>= f) (attempt x' >>= f') where
  ends b hb hlen := by
    have hat := hx.ends b hb hlen
    refine hat.attempt.bind fun outcome b₁ hrun hpassed => ?_
    have hlen₁ := Nat.le_trans hpassed.length_le hlen
    cases outcome with
    | ok a => exact (hok a).ends b₁ hpassed.ending hlen₁
    | error e => exact (herror e (hat.regular_of_attempt hrun)).ends b₁ hpassed.ending hlen₁

/-- A refusal is regular if its complaint is. -/
theorem ends_orFailAt (token : Token) {outcome : Except ErrorKind α}
    (h : ∀ kind, outcome = .error kind → kind.Regular) :
    Ends n (orFailAt token outcome) (orFailAt token outcome) := by
  cases outcome with
  | ok a => exact inferInstanceAs (Ends n (pure a) (pure a))
  | error kind =>
    have hkind := h kind rfl
    exact inferInstanceAs (Ends n (fail token kind) (fail token kind))

end

/-! ## Tokens -/

/-- Passing over what is no token. -/
theorem settle_spec (source : String) (errors : Array CompileError) {items : List ScanItem}
    {t : Token} {ts : List Token} (h : items.filterMap (·.toOption) = t :: ts) :
    ∃ new rest, settle source errors items = (errors ++ new, .ok t :: rest) ∧
      .ok t :: rest <:+ items ∧ rest.filterMap (·.toOption) = ts ∧
      ∀ e ∈ new.toList, e.kind.Regular := by
  induction items generalizing errors with
  | nil => simp at h
  | cons item rest ih =>
    cases item with
    | ok u =>
      obtain ⟨rfl, hrest⟩ := List.cons.inj h
      exact ⟨#[], rest, by simp [settle], List.suffix_refl _, hrest, by simp⟩
    | error e =>
      obtain ⟨new, rest', hsettle, hsuffix, hrest, hregular⟩ :=
        ih (errors.push (scanErrorAt source e)) h
      refine ⟨#[scanErrorAt source e] ++ new, rest', ?_, hsuffix.trans (List.suffix_cons _ _),
        hrest, ?_⟩
      · rw [settle, hsettle, ← Array.append_assoc]
        simp
      · intro e' he'
        rw [Array.toList_append, List.mem_append] at he'
        rcases he' with he' | he'
        · obtain rfl : e' = scanErrorAt source e := by simpa using he'
          exact ⟨by simp [scanErrorAt]⟩
        · exact hregular e' he'

/-- Looking at the next token. -/
theorem peek_spec {b : Builder} {t : Token} {ts : List Token} (hb : b.Ending)
    (h : b.tokens = t :: ts) :
    ∃ b₁ rest, peek b = .ok t b₁ ∧ b.Passed b₁ ∧ b₁.pending = .ok t :: rest ∧
      rest.filterMap (·.toOption) = ts := by
  obtain ⟨new, rest, hsettle, hsuffix, hrest, hregular⟩ :=
    settle_spec b.source b.errors h
  refine ⟨{ b with errors := b.errors ++ new, pending := .ok t :: rest }, rest, ?_, ?_, rfl, hrest⟩
  · rw [peek, hsettle]
    rfl
  · refine ⟨hsuffix, ?_, new.toList, by simp, hregular⟩
    obtain ⟨front, last, hpending, hlast⟩ := hb
    obtain ⟨skipped, hskipped⟩ := hsuffix
    rw [hpending] at hskipped
    -- The end token is the last item on both sides.
    rcases List.eq_nil_or_concat rest with rfl | ⟨rest', item, rfl⟩
    · obtain ⟨-, hlast'⟩ := List.append_inj' hskipped rfl
      exact ⟨[], last, hlast', hlast⟩
    · rw [List.concat_eq_append, ← List.cons_append, ← List.append_assoc] at hskipped
      obtain ⟨-, hlast'⟩ := List.append_inj' hskipped rfl
      exact ⟨.ok t :: rest', last, by rw [List.concat_eq_append, hlast', List.cons_append], hlast⟩

/-- The token at hand is the first one left, and looking at it takes none. -/
theorem peek_tokens {b : Builder} {t : Token} {ts : List Token} (hb : b.Ending)
    (h : b.tokens = t :: ts) :
    ∃ b₁, peek b = .ok t b₁ ∧ b.Passed b₁ ∧ b₁.tokens = t :: ts := by
  obtain ⟨b₁, rest, hpeek, hpassed, hpending, hrest⟩ := peek_spec hb h
  refine ⟨b₁, hpeek, hpassed, ?_⟩
  rw [Builder.tokens, hpending, List.filterMap_cons, hrest]
  rfl

/-- Taking the next token; the end token stays. -/
theorem advance_spec {b : Builder} {t : Token} {ts : List Token} (hb : b.Ending)
    (h : b.tokens = t :: ts) :
    ∃ b₁, advance b = .ok t b₁ ∧ b.Passed b₁ ∧
      b₁.tokens = if t.kind = .eof then t :: ts else ts := by
  obtain ⟨b₁, rest, hpeek, hpassed, hpending, hrest⟩ := peek_spec hb h
  refine ⟨_, bind_of_ok hpeek, ?_, ?_⟩
  · have htaken : b₁.Passed { b₁ with
        pending := if t.kind = .eof then b₁.pending else b₁.pending.tail
        previous := t } := by
      split
      · exact .of_eq hpassed.ending rfl rfl
      · next hkind =>
        refine ⟨List.tail_suffix _, ?_, [], by simp, by simp⟩
        obtain ⟨front, last, hfront, hlast⟩ := hpassed.ending
        show ∃ front last, b₁.pending.tail = front ++ [.ok last] ∧ last.kind = .eof
        rw [hpending] at hfront ⊢
        cases front with
        | nil =>
          obtain ⟨hlast', -⟩ := List.cons.inj hfront
          exact absurd (Except.ok.inj hlast' ▸ hlast) hkind
        | cons item front => exact ⟨front, last, (List.cons.inj hfront).2, hlast⟩
    exact hpassed.trans htaken
  · show List.filterMap _ (if t.kind = .eof then b₁.pending else b₁.pending.tail) = _
    split
    · rw [hpending, List.filterMap_cons, hrest]
      rfl
    · rw [hpending]
      exact hrest

section

variable {n : Nat} {f f' : Token → Build β}

theorem EndsAt.of_ok {b b' : Builder} {x : Build α} {a : α} (h : x b = .ok a b')
    (hpassed : b.Passed b') : EndsAt b x x :=
  ⟨rfl, by rwa [after_of_ok h], fun e b₁ hrun => by rw [h] at hrun; cases hrun⟩

/-- What follows when the next token has been looked at. -/
theorem EndsAt.peek {b : Builder} (hb : b.Ending)
    (hf : ∀ t ts b₁, b₁.Ending → b.tokens = t :: ts → b₁.tokens = t :: ts →
      EndsAt b₁ (f t) (f' t)) : EndsAt b (peek >>= f) (peek >>= f') := by
  obtain ⟨t, ts, htokens⟩ := hb.exists_cons
  obtain ⟨b₁, hpeek, hpassed, htokens₁⟩ := peek_tokens hb htokens
  refine (EndsAt.of_ok hpeek hpassed).bind fun a b₂ hrun _ => ?_
  rw [hpeek] at hrun
  cases hrun
  exact hf _ _ _ hpassed.ending htokens htokens₁

/-- Steps that look at the token at hand move alike, if they do so for every token. -/
theorem MovesAt.peek {b : Builder} (hb : b.Ending)
    (hf : ∀ t ts b₁, b₁.Ending → b.tokens = t :: ts → b₁.tokens = t :: ts →
      MovesAt b₁ (f t) (f' t)) : MovesAt b (peek >>= f) (peek >>= f') where
  toEndsAt := .peek hb fun t ts b₁ hb₁ h h₁ => (hf t ts b₁ hb₁ h h₁).toEndsAt
  moved t ts htokens ht := by
    obtain ⟨b₁, hpeek, hpassed, htokens₁⟩ := peek_tokens hb htokens
    have hlt := (hf t ts b₁ hpassed.ending htokens htokens₁).moved t ts htokens₁ ht
    rwa [after_congr (bind_of_ok hpeek), htokens, ← htokens₁]

/-- Behind a token other than the end token, which is taken, there are fewer. -/
theorem MovesAt.advance {b : Builder} {t : Token} {ts : List Token} (hb : b.Ending)
    (hlen : b.tokens.length ≤ n) (htokens : b.tokens = t :: ts) (ht : t.kind ≠ .eof)
    (hf : ∀ m, m < n → Ends m (f t) (f' t)) : MovesAt b (advance >>= f) (advance >>= f') := by
  obtain ⟨b₁, hadvance, hpassed, hrest⟩ := advance_spec hb htokens
  rw [if_neg ht] at hrest
  rw [htokens] at hlen
  refine MovesAt.bind ⟨.of_ok hadvance hpassed, fun _ _ _ _ => ?_⟩ fun a b₂ hrun _ => ?_
  · rw [after_of_ok hadvance, hrest, htokens]
    exact Nat.lt_succ_self _
  · rw [hadvance] at hrun
    cases hrun
    exact (hf ts.length hlen).ends b₁ hpassed.ending (Nat.le_of_eq (congrArg _ hrest))

/-- A phrase that starts with taking a token. -/
theorem moves_advance (hend : ∀ t, t.kind = .eof → Ends n (f t) (f' t))
    (hf : ∀ m, m < n → ∀ t, Ends m (f t) (f' t)) : Moves n (advance >>= f) (advance >>= f') where
  moves b hb hlen := by
    obtain ⟨t, ts, htokens⟩ := hb.exists_cons
    by_cases ht : t.kind = .eof
    · obtain ⟨b₁, hadvance, hpassed, hrest⟩ := advance_spec hb htokens
      refine ⟨(EndsAt.of_ok hadvance hpassed).bind fun a b₂ hrun hpassed => ?_,
        fun u us hus hu => ?_⟩
      · rw [hadvance] at hrun
        cases hrun
        exact (hend t ht).ends _ hpassed.ending (Nat.le_trans hpassed.length_le hlen)
      · rw [htokens] at hus
        exact absurd ((List.cons.inj hus).1 ▸ ht) hu
    · exact MovesAt.advance hb hlen htokens ht fun m hm => hf m hm t

instance : Ends n peek peek where
  ends b hb _ := by
    obtain ⟨t, ts, htokens⟩ := hb.exists_cons
    obtain ⟨b₁, hpeek, hpassed, -⟩ := peek_tokens hb htokens
    exact .of_ok hpeek hpassed

instance : Ends n advance advance where
  ends b hb _ := by
    obtain ⟨t, ts, htokens⟩ := hb.exists_cons
    obtain ⟨b₁, hadvance, hpassed, -⟩ := advance_spec hb htokens
    exact .of_ok hadvance hpassed

instance (kind : TokenKind) : Ends n (check kind) (check kind) := by
  unfold check
  infer_instance

instance (kind : TokenKind) : Ends n (atEnd kind) (atEnd kind) := by
  unfold atEnd
  infer_instance

instance (kind : TokenKind) : Ends n (accept kind) (accept kind) := by
  unfold accept
  infer_instance

instance (canAssign : Bool) : Ends n (acceptAssignment canAssign) (acceptAssignment canAssign) := by
  unfold acceptAssignment
  infer_instance

instance (what : Expectation) : (ErrorKind.expected what).Regular := ⟨by simp⟩

instance (what : Expectation) : Ends n (expect what) (expect what) := by
  unfold expect
  infer_instance

theorem Expectation.kind_ne_eof (what : Expectation) : what.kind ≠ .eof := by
  cases what <;> simp [Expectation.kind]

/-- A token other than the end token is taken. -/
theorem length_advance {b b' : Builder} {t u : Token} {ts : List Token} (hb : b.Ending)
    (htokens : b.tokens = t :: ts) (ht : t.kind ≠ .eof) (h : advance b = .ok u b') :
    b'.tokens.length < b.tokens.length := by
  obtain ⟨b₁, hadvance, -, hrest⟩ := advance_spec hb htokens
  rw [hadvance] at h
  cases h
  rw [hrest, if_neg ht, htokens]
  exact Nat.lt_succ_self _

/-- A token that has to stand somewhere is no end token, so it is taken. -/
theorem takes_expect (what : Expectation) (t : Token) : Takes n (expect what) t := by
  intro b b' hb _ h
  obtain ⟨u, us, htokens⟩ := hb.exists_cons
  obtain ⟨b₁, hpeek, hpassed, htokens₁⟩ := peek_tokens hb htokens
  rw [expect, bind_of_ok hpeek] at h
  split at h
  · next hkind =>
    have hne : u.kind ≠ .eof := hkind ▸ Expectation.kind_ne_eof what
    exact Nat.lt_of_lt_of_le (length_advance hpassed.ending htokens₁ hne h) hpassed.length_le
  · cases h

/-- A token other than the end token that is accepted is taken. -/
theorem takes_accept {kind : TokenKind} (hkind : kind ≠ .eof) : Takes n (accept kind) true := by
  intro b b' hb _ h
  obtain ⟨u, us, htokens⟩ := hb.exists_cons
  obtain ⟨b₁, hpeek, hpassed, htokens₁⟩ := peek_tokens hb htokens
  have hcheck : check kind b = .ok (decide (u.kind = kind)) b₁ := bind_of_ok hpeek
  rw [accept, bind_of_ok hcheck] at h
  split at h
  · next hu =>
    have hne : u.kind ≠ .eof := of_decide_eq_true hu ▸ hkind
    obtain ⟨_, _, hadvance, hlast⟩ := ok_bind h
    cases hlast
    exact Nat.lt_of_lt_of_le (length_advance hpassed.ending htokens₁ hne hadvance)
      hpassed.length_le
  · cases h

end

/-! ## Repetition -/

section

variable {n : Nat}

/-- **A repetition whose rounds take tokens ends before its bound is used up**, so that any other
bound that allows a round for each token gives the same. -/
theorem EndsAt.repeatOver {round round' : Build Bool} [hround : Rounds n round round']
    {items items' : List ScanItem} {b : Builder} (hb : b.Ending) (hlen : b.tokens.length ≤ n)
    (hitems : b.tokens.length ≤ items.length) (hitems' : b.tokens.length ≤ items'.length) :
    EndsAt b (repeatOver round items) (repeatOver round' items') := by
  obtain ⟨t, ts, htokens⟩ := hb.exists_cons
  induction items generalizing b items' t ts with
  | nil =>
    rw [htokens] at hitems
    cases hitems
  | cons _ rest ih =>
    cases items' with
    | nil =>
      rw [htokens] at hitems'
      cases hitems'
    | cons _ rest' =>
      unfold Build.repeatOver
      refine (hround.ends b hb hlen).bind fun again b₁ hrun hpassed => ?_
      cases again with
      | true =>
        have hlt := hround.takes b b₁ hb hlen hrun
        obtain ⟨u, us, htokens₁⟩ := hpassed.ending.exists_cons
        rw [List.length_cons] at hitems hitems'
        exact ih hpassed.ending (by omega) (by omega) (by omega) u us htokens₁
      | false =>
        have hpure : Ends n (pure ⟨⟩ : Build PUnit) (pure ⟨⟩) := inferInstance
        exact hpure.ends b₁ hpassed.ending (Nat.le_trans hpassed.length_le hlen)

theorem length_tokens_le (b : Builder) : b.tokens.length ≤ b.pending.length :=
  List.length_filterMap_le _ _

/-- A loop ends if each of its rounds does, and takes a token if there is another one. -/
theorem EndsAt.repeatWhile {round round' : Build Bool} [Rounds n round round']
    {bound : List ScanItem} {b : Builder} (hb : b.Ending) (hlen : b.tokens.length ≤ n)
    (hbound : b.tokens.length ≤ bound.length) :
    EndsAt b (repeatWhile round) (Build.repeatOver round' bound) := by
  have h : EndsAt b (Build.repeatOver round b.pending) (Build.repeatOver round' bound) :=
    .repeatOver hb hlen (length_tokens_le b) hbound
  exact ⟨h.agree, h.passed, h.regular⟩

instance (round round' : Build Bool) [Rounds n round round'] :
    Ends n (repeatWhile round) (repeatWhile round') where
  ends b hb hlen := by
    have h : EndsAt b (repeatWhile round) (repeatOver round' b.pending) :=
      .repeatWhile hb hlen (length_tokens_le b)
    exact ⟨h.agree, h.passed, h.regular⟩

/-- The last round of a repetition asks for no other. -/
theorem exists_last_round {round : Build Bool} {b b' : Builder}
    (h : repeatWhile round b = .ok () b') : ∃ b₁, round b₁ = .ok false b' := by
  change repeatOver round b.pending b = _ at h
  generalize b.pending = items at h
  induction items generalizing b with
  | nil =>
    rw [repeatOver] at h
    cases h
  | cons _ rest ih =>
    rw [repeatOver] at h
    rcases hround : round b with ⟨again, b₁⟩ | ⟨e, b₁⟩
    · rw [bind_of_ok hround] at h
      cases again with
      | true => exact ih h
      | false =>
        cases h
        exact ⟨b, hround⟩
    · rw [bind_of_error hround] at h
      cases h

end

/-! ## Code and variables -/

instance : ErrorKind.expectedExpression.Regular := ⟨by simp⟩

instance : ErrorKind.invalidAssignmentTarget.Regular := ⟨by simp⟩

instance : ErrorKind.invalidNumber.Regular := ⟨by simp⟩

instance : ErrorKind.tooManyConstants.Regular := ⟨by simp⟩

instance : ErrorKind.tooManyLocals.Regular := ⟨by simp⟩

instance : ErrorKind.tooManyParameters.Regular := ⟨by simp⟩

instance : ErrorKind.tooManyArguments.Regular := ⟨by simp⟩

instance : ErrorKind.tooManyElements.Regular := ⟨by simp⟩

instance : ErrorKind.localInOwnInitializer.Regular := ⟨by simp⟩

instance : ErrorKind.tooManyCaptures.Regular := ⟨by simp⟩

instance : ErrorKind.duplicateLocal.Regular := ⟨by simp⟩

instance : ErrorKind.returnFromScript.Regular := ⟨by simp⟩

instance : ErrorKind.returnFromInitializer.Regular := ⟨by simp⟩

instance : ErrorKind.selfOutsideClass.Regular := ⟨by simp⟩

instance : ErrorKind.superOutsideClass.Regular := ⟨by simp⟩

instance : ErrorKind.superWithoutSuperclass.Regular := ⟨by simp⟩

instance : ErrorKind.inheritFromSelf.Regular := ⟨by simp⟩

instance (e : JumpError) : (ErrorKind.jump e).Regular := ⟨by simp⟩

section

variable {n : Nat}

instance : Ends n previousLine previousLine := by
  unfold previousLine
  infer_instance

instance (f : FunctionContext → FunctionContext) : Ends n (modifyContext f) (modifyContext f) :=
  ends_modify (fun _ => rfl) fun _ => rfl

instance (f : Chunk → Chunk) : Ends n (modifyChunk f) (modifyChunk f) := by
  unfold modifyChunk
  infer_instance

instance : Ends n codeSize codeSize := by
  unfold codeSize
  infer_instance

instance (op : Opcode) (line : Nat) : Ends n (emitAt op line) (emitAt op line) := by
  unfold emitAt
  infer_instance

instance (op : Opcode) : Ends n (emit op) (emit op) := by
  unfold emit
  infer_instance

instance (op : Opcode) (operand : UInt8) (line : Nat) :
    Ends n (emitWithAt op operand line) (emitWithAt op operand line) := by
  unfold emitWithAt
  infer_instance

instance (byte : UInt8) (line : Nat) : Ends n (emitByteAt byte line) (emitByteAt byte line) := by
  unfold emitByteAt
  infer_instance

instance : Ends n emitReturn emitReturn := by
  unfold emitReturn
  infer_instance

instance (op : Opcode) (line : Nat) : Ends n (emitJump op line) (emitJump op line) := by
  unfold emitJump
  infer_instance

instance (outcome : Except JumpError Chunk) : Ends n (setChunk outcome) (setChunk outcome) := by
  cases outcome <;> (unfold setChunk; infer_instance)

instance (offset : Nat) : Ends n (patchJump offset) (patchJump offset) := by
  unfold patchJump
  infer_instance

instance (start line : Nat) : Ends n (emitLoop start line) (emitLoop start line) := by
  unfold emitLoop
  infer_instance

instance (token : Token) (value : Value) :
    Ends n (constantAt token value) (constantAt token value) := by
  unfold constantAt
  refine .bind inferInstance fun b => .bind inferInstance fun _ => ?_
  split <;> infer_instance

instance (value : Value) : Ends n (constant value) (constant value) := by
  unfold constant
  infer_instance

instance (name : Token) : Ends n (nameConstant name) (nameConstant name) := by
  unfold nameConstant
  infer_instance

instance (name : String) (token : Token) : Ends n (addLocal name token) (addLocal name token) := by
  unfold addLocal
  refine .bind inferInstance fun b => .bind (ends_orFailAt token fun kind hkind => ?_) inferInstance
  rw [FunctionContext.addLocal] at hkind
  split at hkind
  · cases hkind
  · cases hkind
    infer_instance

instance (name : Token) : Ends n (declareVariable name) (declareVariable name) := by
  unfold declareVariable
  infer_instance

instance : Ends n markInitialized markInitialized := by
  unfold markInitialized
  infer_instance

instance (name? : Option UInt8) : Ends n (defineVariable name?) (defineVariable name?) := by
  cases name? <;> (unfold defineVariable; infer_instance)

instance : Ends n variableName variableName := by
  unfold variableName
  infer_instance

/-- A local variable that cannot be resolved is used in its own initializer. -/
theorem kind_of_resolveLocal {c : FunctionContext} {name : String} {kind : ErrorKind}
    (h : c.resolveLocal name = .error kind) : kind = .localInOwnInitializer := by
  rw [FunctionContext.resolveLocal] at h
  split at h
  · cases h
  · split at h <;> cases h
    rfl

/-- A variable that cannot be captured is one too many. -/
theorem kind_of_addCapture {c : FunctionContext} {capture : Capture} {kind : ErrorKind}
    (h : ((c.addCapture capture).1.map some : Except ErrorKind (Option UInt8)) = .error kind) :
    kind = .tooManyCaptures := by
  rw [FunctionContext.addCapture] at h
  split at h
  · cases h
  · split at h <;> cases h
    rfl

/-- A variable around is not found for one of two reasons. -/
theorem kind_of_resolveCapture {name : String} {c : FunctionContext}
    {around : List FunctionContext} {kind : ErrorKind}
    (h : (resolveCapture name c around).index = .error kind) :
    kind = .localInOwnInitializer ∨ kind = .tooManyCaptures := by
  induction around generalizing c kind with
  | nil => cases h
  | cons outer rest ih =>
    rw [resolveCapture] at h
    split at h
    · next hlocal =>
      cases h
      exact .inl (kind_of_resolveLocal hlocal)
    · exact .inr (kind_of_addCapture h)
    · dsimp only at h
      split at h
      · next hfound =>
        cases h
        exact ih hfound
      · cases h
      · exact .inr (kind_of_addCapture h)

theorem regular_of_resolveLocal {c : FunctionContext} {name : String} {kind : ErrorKind}
    (h : c.resolveLocal name = .error kind) : kind.Regular := by
  obtain rfl := kind_of_resolveLocal h
  infer_instance

theorem regular_of_resolveCapture {name : String} {c : FunctionContext}
    {around : List FunctionContext} {kind : ErrorKind}
    (h : (resolveCapture name c around).index = .error kind) : kind.Regular := by
  obtain rfl | rfl := kind_of_resolveCapture h <;> infer_instance

instance (token : Token) : Ends n (resolve token) (resolve token) := by
  unfold resolve
  refine .bind inferInstance fun b =>
    .bind (ends_orFailAt token fun _ => regular_of_resolveLocal) fun slot? => ?_
  cases slot? with
  | some slot =>
    dsimp only
    infer_instance
  | none =>
    refine .bind (ends_modify (fun _ => rfl) fun _ => rfl) fun _ =>
      .bind (ends_orFailAt token fun _ => regular_of_resolveCapture) fun index? => ?_
    cases index? <;> (dsimp only; infer_instance)

instance (token : Token) : Ends n (readVariable token) (readVariable token) := by
  unfold readVariable
  infer_instance

instance {γ : Type} (xs : List γ) (f : γ → Build PUnit) [∀ x, Ends n (f x) (f x)] :
    Ends n (xs.forM f) (xs.forM f) := by
  induction xs with
  | nil => exact inferInstanceAs (Ends n (pure _) (pure _))
  | cons x rest ih =>
    exact inferInstanceAs (Ends n (f x >>= fun _ => rest.forM f) (f x >>= fun _ => rest.forM f))

instance {γ : Type} (xs : Array γ) (f : γ → Build PUnit) [∀ x, Ends n (f x) (f x)] :
    Ends n (xs.forM f) (xs.forM f) := by
  rw [forM_array_toList]
  infer_instance

/-! ## Blocks, functions and classes -/

instance : Ends n beginScope beginScope := by
  unfold beginScope
  infer_instance

instance : Ends n endScope endScope := by
  unfold endScope
  infer_instance

/-- A step that is tried and whose outcome is passed on behind a step that ends. -/
theorem Ends.bracket {γ : Type} {x x' : Build α} {z : Build γ}
    {k k' : Except CompileError α → γ → Build β} (hx : Ends n x x') [Ends n z z]
    (hok : ∀ a c, Ends n (k (.ok a) c) (k' (.ok a) c))
    (herror : ∀ e c, e.kind.Regular → Ends n (k (.error e) c) (k' (.error e) c)) :
    Ends n (Build.attempt x >>= fun outcome => z >>= k outcome)
      (Build.attempt x' >>= fun outcome => z >>= k' outcome) :=
  .attempt hx (fun a => .bind inferInstance (hok a)) fun e he =>
    .bind inferInstance fun c => herror e c he

instance (x y : Build Unit) [Ends n x y] : Ends n (inScope x) (inScope y) := by
  unfold inScope
  refine .bind inferInstance fun _ => .bracket inferInstance (fun a _ => ?_) fun e _ he => ?_
  · exact inferInstanceAs (Ends n (pure a) (pure a))
  · exact ends_throw he

instance (name : String) (kind : FunctionKind) :
    Ends n (beginFunction name kind) (beginFunction name kind) :=
  ends_modify (fun _ => rfl) fun _ => rfl

instance : Ends n endFunction endFunction := by
  unfold endFunction
  refine .bind inferInstance fun _ => .bind inferInstance fun b =>
    .bind (ends_modify ?_ ?_) inferInstance
  · intro b
    split <;> rfl
  · intro b
    split <;> rfl

instance (finished : FunctionContext) : Ends n (keepFunction finished) (keepFunction finished) := by
  unfold keepFunction
  refine .bind inferInstance fun b => ?_
  exact .bind (ends_modify (fun _ => rfl) fun _ => rfl) fun _ => inferInstance

instance (finished : FunctionContext) (line : Nat) :
    Ends n (emitClosure finished line) (emitClosure finished line) := by
  unfold emitClosure
  infer_instance

instance : Ends n beginClass beginClass :=
  ends_modify (fun _ => rfl) fun _ => rfl

instance : Ends n endClass endClass := by
  unfold endClass
  refine .bind inferInstance fun b => ?_
  exact .bind (ends_modify (fun _ => rfl) fun _ => rfl) fun _ => inferInstance

instance : Ends n markSuperclass markSuperclass :=
  ends_modify (fun b => by split <;> rfl) fun b => by split <;> rfl

end

/-! ## Expressions -/

section

-- The longest phrases are sequences of a dozen steps.
set_option synthInstance.maxSize 512

variable {n : Nat}

instance (token : Token) : Ends n (numberLiteral token) (numberLiteral token) := by
  unfold numberLiteral
  dsimp only
  split <;> infer_instance

instance (token : Token) : Ends n (stringLiteral token) (stringLiteral token) := by
  unfold stringLiteral
  infer_instance

instance (token : Token) : Ends n (selfAccess token) (selfAccess token) := by
  unfold selfAccess
  infer_instance

instance (token : Token) : Ends n (requireSuperclass token) (requireSuperclass token) := by
  unfold requireSuperclass
  refine .bind inferInstance fun b => ?_
  split <;> infer_instance

variable (inner inner' : Phrase → Build Unit) [hinner : ∀ p, Moves n (inner p) (inner' p)]

instance : Ends n (anyExpression inner) (anyExpression inner') := by
  unfold anyExpression
  infer_instance

instance (excess : ErrorKind) [excess.Regular] (count : Nat) :
    Ends n (listElement inner excess count) (listElement inner' excess count) := by
  unfold listElement
  infer_instance

include hinner in
/-- An element of a list takes a token, if another one follows. -/
theorem takes_listElement (excess : ErrorKind) [excess.Regular] (count : Nat) :
    Takes n (listElement inner excess count) true := by
  have hends : Ends n (anyExpression inner) (anyExpression inner') := inferInstance
  refine .bind_right hends fun _ => ?_
  split
  · exact .behind fun _ => takes_fail _ _ _
  · exact takes_accept (by decide)

/-- **Each element of a list but the last is followed by a comma, which is taken**, so the bound of
the list is not used up. -/
theorem EndsAt.listElements {excess : ErrorKind} [excess.Regular] {count : Nat}
    {items items' : List ScanItem} {b : Builder} (hb : b.Ending) (hlen : b.tokens.length ≤ n)
    (hitems : b.tokens.length ≤ items.length) (hitems' : b.tokens.length ≤ items'.length) :
    EndsAt b (listElements inner excess count items) (listElements inner' excess count items') := by
  obtain ⟨t, ts, htokens⟩ := hb.exists_cons
  induction items generalizing b count items' t ts with
  | nil =>
    rw [htokens] at hitems
    cases hitems
  | cons _ rest ih =>
    cases items' with
    | nil =>
      rw [htokens] at hitems'
      cases hitems'
    | cons _ rest' =>
      have helement : Ends n (listElement inner excess count) (listElement inner' excess count) :=
        inferInstance
      unfold Build.listElements
      refine (helement.ends b hb hlen).bind fun again b₁ hrun hpassed => ?_
      cases again with
      | true =>
        have hlt := takes_listElement inner inner' excess count b b₁ hb hlen hrun
        obtain ⟨u, us, htokens₁⟩ := hpassed.ending.exists_cons
        rw [List.length_cons] at hitems hitems'
        exact ih hpassed.ending (by omega) (by omega) (by omega) u us htokens₁
      | false =>
        have hpure : Ends n (pure (count + 1) : Build Nat) (pure (count + 1)) := inferInstance
        exact hpure.ends b₁ hpassed.ending (Nat.le_trans hpassed.length_le hlen)

instance (excess : ErrorKind) [excess.Regular] (closing : Expectation) :
    Ends n (expressionList inner excess closing) (expressionList inner' excess closing) := by
  unfold expressionList
  refine .bind inferInstance fun stop => ?_
  cases stop with
  | true =>
    simp only [↓reduceIte]
    infer_instance
  | false =>
    simp only [Bool.false_eq_true, ↓reduceIte]
    refine ⟨fun b hb hlen => ?_⟩
    have hlist : EndsAt b (listElements inner excess 0 b.pending)
        (listElements inner' excess 0 b.pending) :=
      .listElements inner inner' hb hlen (length_tokens_le b) (length_tokens_le b)
    have hthen : ∀ count : Nat, Ends n
        (do let _ ← expect closing; return UInt8.ofNat count : Build UInt8)
        (do let _ ← expect closing; return UInt8.ofNat count) := inferInstance
    have h := hlist.bind fun count b₁ _ hpassed =>
      (hthen count).ends b₁ hpassed.ending (Nat.le_trans hpassed.length_le hlen)
    exact ⟨h.agree, h.passed, h.regular⟩

instance : Ends n (arguments inner) (arguments inner') := by
  unfold arguments
  infer_instance

instance (token : Token) : Ends n (arrayLiteral inner token) (arrayLiteral inner' token) := by
  unfold arrayLiteral
  infer_instance

instance (op : Opcode) (token : Token) : Ends n (unary inner op token) (unary inner' op token) := by
  unfold unary
  infer_instance

instance : Ends n (grouping inner) (grouping inner') := by
  unfold grouping
  infer_instance

instance (token : Token) (canAssign : Bool) :
    Ends n (variableAccess inner token canAssign) (variableAccess inner' token canAssign) := by
  unfold variableAccess
  infer_instance

instance (token : Token) : Ends n (superAccess inner token) (superAccess inner' token) := by
  unfold superAccess
  infer_instance

instance (token : Token) (canAssign : Bool) :
    Ends n (primary inner token canAssign) (primary inner' token canAssign) := by
  unfold primary
  split <;> infer_instance

instance (token : Token) : Ends n (conjunction inner token) (conjunction inner' token) := by
  unfold conjunction
  infer_instance

instance (token : Token) : Ends n (disjunction inner token) (disjunction inner' token) := by
  unfold disjunction
  infer_instance

instance (token : Token) : Ends n (subscript inner token) (subscript inner' token) := by
  unfold subscript
  infer_instance

instance (canAssign : Bool) : Ends n (property inner canAssign) (property inner' canAssign) := by
  unfold property
  infer_instance

instance (token : Token) (canAssign : Bool) (continuation : Continuation) :
    Ends n (continueWith inner token canAssign continuation)
      (continueWith inner' token canAssign continuation) := by
  cases continuation <;> (unfold continueWith; infer_instance)

instance (least : Precedence) (canAssign : Bool) :
    Ends n (continueOnce inner least canAssign) (continueOnce inner' least canAssign) := by
  unfold continueOnce
  refine .bind inferInstance fun token => ?_
  split <;> infer_instance

/-- An expression goes on with a token that is taken. -/
instance (least : Precedence) (canAssign : Bool) :
    Rounds n (continueOnce inner least canAssign) (continueOnce inner' least canAssign) where
  takes b b' hb hlen h := by
    obtain ⟨t, ts, htokens⟩ := hb.exists_cons
    obtain ⟨b₁, hpeek, hpassed, htokens₁⟩ := peek_tokens hb htokens
    refine Nat.lt_of_lt_of_le ?_ hpassed.length_le
    rw [continueOnce, bind_of_ok hpeek] at h
    rcases hkind : continuation? t.kind with _ | ⟨precedence, continuation⟩
    · rw [hkind] at h
      cases h
    · rw [hkind] at h
      dsimp only at h
      split at h
      · cases h
      · obtain ⟨u, b₂, hadvance, h⟩ := ok_bind h
        obtain ⟨_, b₃, hthen, h⟩ := ok_bind h
        cases h
        have hne : t.kind ≠ .eof := fun heof => by
          rw [heof] at hkind
          cases hkind
        have hlt := length_advance hpassed.ending htokens₁ hne hadvance
        have hends : Ends n (continueWith inner u canAssign continuation)
          (continueWith inner' u canAssign continuation) := inferInstance
        have hadvanced := (inferInstance : Ends n advance advance).passed hpassed.ending
          (Nat.le_trans hpassed.length_le hlen) hadvance
        have hlen₂ : b₂.tokens.length ≤ n :=
          Nat.le_trans hadvanced.length_le (Nat.le_trans hpassed.length_le hlen)
        exact Nat.lt_of_le_of_lt (hends.passed hadvanced.ending hlen₂ hthen).length_le hlt

/-! ## Statements and declarations -/

instance (line jump : Nat) : Ends n (landAndDrop jump line) (landAndDrop jump line) := by
  unfold landAndDrop
  infer_instance

/-- A declaration of a block does not start with the end token, so it takes a token. -/
instance (closing : TokenKind) :
    Rounds n (blockRound inner closing) (blockRound inner' closing) where
  ends := by
    have h : Ends n (blockRound inner closing) (blockRound inner' closing) := by
      unfold blockRound
      infer_instance
    exact h.ends
  takes b b' hb hlen h := by
    obtain ⟨t, ts, htokens⟩ := hb.exists_cons
    obtain ⟨b₁, hpeek, hpassed, htokens₁⟩ := peek_tokens hb htokens
    have hat : atEnd closing b = .ok (decide (t.kind = closing) || decide (t.kind = .eof)) b₁ :=
      bind_of_ok hpeek
    rw [blockRound, bind_of_ok hat] at h
    split at h
    · cases h
    · next hkind =>
      obtain ⟨_, b₂, hrun, h⟩ := ok_bind h
      cases h
      have hne : t.kind ≠ .eof := fun heof => hkind (by simp [heof])
      have hmoves := (hinner .declaration).moves b₁ hpassed.ending
        (Nat.le_trans hpassed.length_le hlen)
      have hlt := hmoves.moved t ts htokens₁ hne
      rw [after_of_ok hrun] at hlt
      exact Nat.lt_of_lt_of_le hlt hpassed.length_le

instance : Ends n (block inner) (block inner') := by
  unfold block
  infer_instance

instance : Ends n (alternative inner) (alternative inner') := by
  unfold alternative
  infer_instance

instance : Ends n (whileLoop inner) (whileLoop inner') := by
  unfold whileLoop
  infer_instance

instance (keyword : Token) :
    Ends n (returnStatement inner keyword) (returnStatement inner' keyword) := by
  unfold returnStatement
  refine .bind inferInstance fun b => ?_
  cases b.context.function.kind <;> (dsimp only; infer_instance)

instance (keyword : Token) :
    Ends n (printStatement inner keyword) (printStatement inner' keyword) := by
  unfold printStatement
  infer_instance

instance : Rounds n parameter parameter where
  ends := by
    have h : Ends n parameter parameter := by
      unfold parameter
      infer_instance
    exact h.ends
  takes := .behind fun b => by
    have hread : Takes n (do
        modifyContext fun c =>
          { c with function := { c.function with arity := c.function.arity + 1 } }
        let name? ← variableName
        defineVariable name?
        accept .comma : Build Bool) true :=
      .behind fun _ => .behind fun _ => .behind fun _ => takes_accept (by decide)
    dsimp only
    split
    · exact .behind fun _ => .behind fun _ => hread
    · exact hread

instance : Ends n parameters parameters := by
  unfold parameters
  infer_instance

instance (hasParameters : Bool) :
    Ends n (functionBody inner hasParameters) (functionBody inner' hasParameters) := by
  unfold functionBody
  infer_instance

instance (name : String) (kind : FunctionKind) (hasParameters : Bool) :
    Ends n (function inner name kind hasParameters) (function inner' name kind hasParameters) := by
  unfold function
  refine .bind inferInstance fun _ => .bind inferInstance fun _ =>
    .bracket inferInstance (fun a _ => ?_) fun e _ he => ?_
  · exact inferInstanceAs (Ends n (pure a >>= fun _ => _) (pure a >>= fun _ => _))
  · exact .bind (ends_throw he) inferInstance

instance : Ends n (variableDeclaration inner) (variableDeclaration inner') := by
  unfold variableDeclaration
  infer_instance

instance : Ends n (functionDeclaration inner) (functionDeclaration inner') := by
  unfold functionDeclaration
  infer_instance

instance : Ends n (member inner) (member inner') := by
  unfold member
  infer_instance

/-- A member starts with a keyword or a name. -/
instance : Rounds n (memberRound inner) (memberRound inner') where
  ends := by
    have h : Ends n (memberRound inner) (memberRound inner') := by
      unfold memberRound
      infer_instance
    exact h.ends
  takes := .behind fun stop => by
    cases stop with
    | true => exact fun b b' _ _ h => by cases h
    | false =>
      simp only [Bool.false_eq_true, ↓reduceIte]
      have : ∀ p, Moves n (inner p) (inner p) := fun p => (hinner p).refl
      have hmember : ∀ u, Takes n (member inner) u := fun u => .behind fun isProperty => by
        split <;> exact .ahead (takes_expect _)
      exact .ahead hmember

instance (name : Token) : Ends n (superclass name) (superclass name) := by
  unfold superclass
  infer_instance

instance (name : Token) : Ends n (classBody inner name) (classBody inner' name) := by
  unfold classBody
  infer_instance

instance : Ends n (classDeclaration inner) (classDeclaration inner') := by
  unfold classDeclaration
  refine .bind inferInstance fun _ => .bind inferInstance fun _ => .bind inferInstance fun _ =>
    .bind inferInstance fun _ => .bind inferInstance fun _ => .bind inferInstance fun _ =>
    .bind inferInstance fun _ => .bracket inferInstance (fun a _ => ?_) fun e _ he => ?_
  · exact inferInstanceAs (Ends n (pure a) (pure a))
  · exact ends_throw he

/-! ## Recovery -/

instance : Rounds n synchronizeRound synchronizeRound where
  ends := by
    have h : Ends n synchronizeRound synchronizeRound := by
      unfold synchronizeRound
      infer_instance
    exact h.ends
  takes b b' hb _ h := by
    obtain ⟨t, ts, htokens⟩ := hb.exists_cons
    obtain ⟨b₁, hpeek, hpassed, htokens₁⟩ := peek_tokens hb htokens
    rw [synchronizeRound, bind_of_ok hpeek] at h
    split at h
    · cases h
    · next hkind =>
      obtain ⟨u, b₂, hadvance, h⟩ := ok_bind h
      obtain ⟨-, rfl⟩ := EStateM.Result.ok.inj h
      have hne : t.kind ≠ .eof := fun heof => hkind (by simp [heof])
      exact Nat.lt_of_lt_of_le (length_advance hpassed.ending htokens₁ hne hadvance)
        hpassed.length_le

instance : Ends n synchronize synchronize := by
  unfold synchronize
  infer_instance

end

/-! ## Phrases -/

section

set_option synthInstance.maxSize 512

variable {n : Nat} {inner inner' : Phrase → Build Unit}

/-- Where no expression follows, there is no operand. -/
theorem primary_of_eof {token : Token} (h : token.kind = .eof) (canAssign : Bool) :
    primary inner token canAssign = fail token .expectedExpression := by
  rw [primary, h]

/-- Reading an expression moves on alike at any depth. -/
theorem moves_expression (hin : ∀ m, m < n → ∀ p, Moves m (inner p) (inner' p))
    (least : Precedence) : Moves n (expression inner least) (expression inner' least) := by
  refine moves_advance (fun token heof => ?_) fun m hm token => ?_
  · dsimp only
    rw [primary_of_eof heof, primary_of_eof heof]
    infer_instance
  · have := hin m hm
    infer_instance

/-- Reading an expression takes a token. -/
theorem takes_expression (hin : ∀ m, m < n → ∀ p, Moves m (inner p) (inner' p))
    (least : Precedence) (u : Unit) : Takes n (expression inner least) u := by
  intro b b' hb hlen hrun
  obtain ⟨t, ts, htokens⟩ := hb.exists_cons
  have hmoves := (moves_expression hin least).moves b hb hlen
  by_cases ht : t.kind = .eof
  · obtain ⟨b₁, hadvance, -⟩ := advance_spec hb htokens
    rw [expression, bind_of_ok hadvance] at hrun
    rw [primary_of_eof ht] at hrun
    cases hrun
  · have hlt := hmoves.moved t ts htokens ht
    rwa [after_of_ok hrun] at hlt

section

variable (hat : ∀ least, Moves n (inner (.expression least)) (inner' (.expression least)))
  (htakes : ∀ least u, Takes n (inner (.expression least)) u)
  (hin : ∀ m, m < n → ∀ p, Moves m (inner p) (inner' p))

include hat htakes in
theorem moves_expressionStatement :
    Moves n (expressionStatement inner) (expressionStatement inner') :=
  .bind (hat .assignment) (htakes .assignment) fun _ _ _ => inferInstance

include hat htakes hin in
theorem moves_conditional : Moves n (conditional inner) (conditional inner') :=
  .bind (hat .assignment) (htakes .assignment) fun m hm _ =>
    have := hin m hm
    inferInstance

include hat htakes hin in
/-- A statement moves on alike at any depth. -/
theorem moves_statement : Moves n (statement inner) (statement inner') where
  moves b hb hlen := .peek hb fun t ts b₁ hb₁ h h₁ => by
    have hlen₁ : b₁.tokens.length ≤ n := by rwa [h₁, ← h]
    have htaken {f f' : Token → Build Unit} (ht : t.kind ≠ .eof)
        (hf : ∀ m, m < n → Ends m (f t) (f' t)) : MovesAt b₁ (advance >>= f) (advance >>= f') :=
      .advance hb₁ hlen₁ h₁ ht hf
    split
    all_goals
      try
        next hkind =>
          refine htaken (by rw [hkind]; decide) fun m hm => ?_
          have := hin m hm
          infer_instance
    exact (moves_expressionStatement hat htakes).moves b₁ hb₁ hlen₁

include hat htakes hin in
/-- A declaration that is tried moves on alike at any depth. -/
theorem moves_tryDeclaration : Moves n (tryDeclaration inner) (tryDeclaration inner') where
  moves b hb hlen := .peek hb fun t ts b₁ hb₁ h h₁ => by
    have hlen₁ : b₁.tokens.length ≤ n := by rwa [h₁, ← h]
    have htaken {f f' : Token → Build Unit} (ht : t.kind ≠ .eof)
        (hf : ∀ m, m < n → Ends m (f t) (f' t)) : MovesAt b₁ (advance >>= f) (advance >>= f') :=
      .advance hb₁ hlen₁ h₁ ht hf
    split
    all_goals
      try
        next hkind =>
          refine htaken (by rw [hkind]; decide) fun m hm => ?_
          have := hin m hm
          infer_instance
    exact (moves_statement hat htakes hin).moves b₁ hb₁ hlen₁

/-- A declaration that fails has taken a token, or else it stands at the end. -/
theorem MovesAt.attempt {α : Type} {x x' : Build α} {b : Builder} (h : MovesAt b x x') :
    MovesAt b (attempt x) (attempt x') where
  toEndsAt := h.toEndsAt.attempt
  moved t ts htokens ht := by
    rw [after_attempt]
    exact h.moved t ts htokens ht

include hat htakes hin in
/-- A declaration moves on alike at any depth, with what is skipped behind a mistake. -/
theorem moves_declaration : Moves n (declaration inner) (declaration inner') where
  moves b hb hlen := by
    have hmoves := (moves_tryDeclaration hat htakes hin).moves b hb hlen
    refine hmoves.attempt.bind fun outcome b₁ hrun hpassed => ?_
    have hlen₁ := Nat.le_trans hpassed.length_le hlen
    cases outcome with
    | ok a =>
      have hpure : Ends n (pure a : Build Unit) (pure a) := inferInstance
      exact hpure.ends b₁ hpassed.ending hlen₁
    | error e =>
      have hnote := ends_note (n := n) (hmoves.regular_of_attempt hrun)
      have hrecover : Ends n (note e >>= fun _ => synchronize) (note e >>= fun _ => synchronize) :=
        .bind hnote fun _ => inferInstance
      exact hrecover.ends b₁ hpassed.ending hlen₁

end

end

/-- How many levels a phrase needs where no token is left: an expression stands at the start of a
statement, in front of its first token. -/
def Phrase.need : Phrase → Nat
  | .expression _ => 1
  | .declaration | .conditional => 2

/-- **Phrases take tokens and end, and any greater depth gives the same.**  A phrase goes down one
level behind each token, and one more at the start of a statement. -/
theorem moves_phrase {n depth depth' : Nat} (p : Phrase) (hneed : 2 * n + Phrase.need p ≤ depth)
    (hle : depth ≤ depth') : Moves n (phrase depth p) (phrase depth' p) := by
  induction depth using Nat.strongRecOn generalizing n depth' p with
  | _ depth ih =>
    rcases depth with _ | depth
    · cases p <;> simp [Phrase.need] at hneed
    · rcases depth' with _ | depth'
      · cases hle
      · have hle' := Nat.le_of_succ_le_succ hle
        -- Behind a token one level is enough for any phrase, since `need` is at most two.
        have hin {m : Nat} (hm : 2 * m + 2 ≤ depth) (q : Phrase) :
            Moves m (phrase depth q) (phrase depth' q) :=
          ih depth (Nat.lt_succ_self _) q (by cases q <;> (simp only [Phrase.need]; omega)) hle'
        have hat (hdepth : 2 * n + 1 ≤ depth) (least : Precedence) :
            Moves n (phrase depth (.expression least)) (phrase depth' (.expression least)) :=
          ih depth (Nat.lt_succ_self _) _ hdepth hle'
        have htakes (hdepth : 2 * n + 1 ≤ depth) (least : Precedence) (u : Unit) :
            Takes n (phrase depth (.expression least)) u := by
          rcases depth with _ | below
          · omega
          · have hbelow : ∀ m, m < n → ∀ q,
              Moves m (phrase below q) (phrase below q) := fun m hm q =>
              ih below (by omega) q (by cases q <;> (simp only [Phrase.need]; omega)) (by omega)
            exact takes_expression hbelow least u
        cases p with
        | declaration =>
          have hdepth : 2 * n + 1 ≤ depth := Nat.le_of_succ_le_succ hneed
          exact moves_declaration (hat hdepth) (htakes hdepth) fun m hm => hin (by omega)
        | conditional =>
          have hdepth : 2 * n + 1 ≤ depth := Nat.le_of_succ_le_succ hneed
          exact moves_conditional (hat hdepth) (htakes hdepth) fun m hm => hin (by omega)
        | expression least =>
          have hdepth : 2 * n ≤ depth := Nat.le_of_succ_le_succ hneed
          exact moves_expression (fun m hm => hin (by omega)) least

/-! ## The loops -/

/-- The loops end here, and take a round for each token at most: any bound that allows for as many
rounds gives the same. -/
structure LoopsEnd (inner inner' : Phrase → Build Unit) (b : Builder) : Prop where
  /-- The declarations of a block, or of a source. -/
  block : ∀ closing bound, b.tokens.length ≤ bound.length →
    EndsAt b (repeatWhile (blockRound inner closing)) (repeatOver (blockRound inner' closing) bound)
  /-- The members of a class. -/
  classBody : ∀ bound, b.tokens.length ≤ bound.length →
    EndsAt b (repeatWhile (memberRound inner)) (repeatOver (memberRound inner') bound)
  /-- The arguments of a call. -/
  arguments : ∀ count bound, b.tokens.length ≤ bound.length →
    EndsAt b (listElements inner .tooManyArguments count b.pending)
      (listElements inner' .tooManyArguments count bound)
  /-- The elements of an array. -/
  elements : ∀ count bound, b.tokens.length ≤ bound.length →
    EndsAt b (listElements inner .tooManyElements count b.pending)
      (listElements inner' .tooManyElements count bound)
  /-- The parameters of a function. -/
  parameters : ∀ bound, b.tokens.length ≤ bound.length →
    EndsAt b (repeatWhile parameter) (repeatOver parameter bound)
  /-- The operators of an expression. -/
  operators : ∀ least canAssign bound, b.tokens.length ≤ bound.length →
    EndsAt b (repeatWhile (continueOnce inner least canAssign))
      (repeatOver (continueOnce inner' least canAssign) bound)
  /-- The tokens that recovery passes over. -/
  synchronize : ∀ bound, b.tokens.length ≤ bound.length →
    EndsAt b synchronize (repeatOver synchronizeRound bound)

/-- Every loop of the grammar ends. -/
theorem loopsEnd {n : Nat} (inner inner' : Phrase → Build Unit)
    [∀ p, Moves n (inner p) (inner' p)] {b : Builder} (hb : b.Ending)
    (hlen : b.tokens.length ≤ n) : LoopsEnd inner inner' b where
  block _ _ hbound := .repeatWhile hb hlen hbound
  classBody _ hbound := .repeatWhile hb hlen hbound
  arguments _ _ hbound := .listElements inner inner' hb hlen (length_tokens_le b) hbound
  elements _ _ hbound := .listElements inner inner' hb hlen (length_tokens_le b) hbound
  parameters _ hbound := .repeatWhile hb hlen hbound
  operators _ _ _ hbound := .repeatWhile hb hlen hbound
  synchronize _ hbound := .repeatWhile hb hlen hbound

/-! ## Whole sources -/

/-- A step that fails only when a bound is used up. -/
def Unfailing (x : Build α) : Prop :=
  ∀ b e b', x b = .error e b' → e.kind = .nestingTooDeep

section

variable {x : Build α} {f : α → Build β}

/-- Steps that never fail never do so one behind the other. -/
theorem Unfailing.bind (hx : Unfailing x) (hf : ∀ a, Unfailing (f a)) : Unfailing (x >>= f) := by
  intro b e b' hrun
  rcases h : x b with ⟨a, b₁⟩ | ⟨e₁, b₁⟩
  · rw [bind_of_ok h] at hrun
    exact hf a b₁ e b' hrun
  · rw [bind_of_error h] at hrun
    cases hrun
    exact hx b e b' h

/-- A loop never fails if its rounds do not. -/
theorem Unfailing.repeatOver {round : Build Bool} (hround : Unfailing round)
    (items : List ScanItem) : Unfailing (repeatOver round items) := by
  induction items with
  | nil =>
    intro b e b' hrun
    cases hrun
    rfl
  | cons _ rest ih =>
    refine .bind hround fun again => ?_
    cases again with
    | true => exact ih
    | false => exact fun _ _ _ hrun => by cases hrun

theorem Unfailing.repeatWhile {round : Build Bool} (hround : Unfailing round) :
    Unfailing (repeatWhile round) :=
  fun b => Unfailing.repeatOver hround b.pending b

end

theorem unfailing_peek : Unfailing peek :=
  fun _ _ _ hrun => by cases hrun

theorem unfailing_advance : Unfailing advance :=
  .bind unfailing_peek fun _ _ _ _ hrun => by cases hrun

/-- Looking for the next statement never fails. -/
theorem unfailing_synchronize : Unfailing synchronize :=
  .repeatWhile <| .bind unfailing_peek fun token => by
    split
    · exact fun _ _ _ hrun => by cases hrun
    · exact .bind unfailing_advance fun _ _ _ _ hrun => by cases hrun

/-- A declaration that fails is noted, and what is wrong with it goes no further. -/
theorem unfailing_declaration (inner : Phrase → Build Unit) : Unfailing (declaration inner) := by
  have htry : Unfailing (attempt (tryDeclaration inner)) := fun b e b' hrun => by
    obtain ⟨outcome, hok⟩ := attempt_ok (tryDeclaration inner) b
    rw [hok] at hrun
    cases hrun
  refine .bind htry fun outcome => ?_
  cases outcome with
  | ok a => exact fun _ _ _ hrun => by cases hrun
  | error e => exact .bind (fun _ _ _ hrun => by cases hrun) fun _ => unfailing_synchronize

theorem unfailing_phrase (depth : Nat) : Unfailing (phrase depth .declaration) := by
  cases depth with
  | zero => exact .bind unfailing_peek fun _ _ _ _ hrun => by cases hrun; rfl
  | succ depth => exact unfailing_declaration _

/-- The declarations of a source never fail. -/
theorem unfailing_declarations (depth : Nat) : Unfailing (declarations depth) :=
  .repeatWhile <| .bind (.bind unfailing_peek fun _ _ _ _ hrun => by cases hrun) fun stop => by
    split
    · exact fun _ _ _ hrun => by cases hrun
    · exact .bind (unfailing_phrase depth) fun _ _ _ _ hrun => by cases hrun

/-- Having looked at the next token changes nothing about it. -/
theorem peek_again {b b' : Builder} {token : Token} (h : peek b = .ok token b') :
    peek b' = .ok token b' := by
  have hsettle (errors : Array CompileError) (items : List ScanItem) :
      settle b.source (settle b.source errors items).1 (settle b.source errors items).2 =
        settle b.source errors items := by
    induction items generalizing errors with
    | nil => rfl
    | cons item rest ih =>
      cases item with
      | ok _ => rfl
      | error e => exact ih _
  obtain ⟨rfl, rfl⟩ := EStateM.Result.ok.inj h
  simp only [peek, hsettle]

theorem ending_start (functions : Array Function) (source : String) :
    (Builder.start functions source (scan source)).Ending := by
  obtain ⟨items, last, hscan, hlast, -⟩ := scan_eq_concat source
  exact ⟨items, last, hscan, hlast⟩

theorem moves_phrases {n depth depth' : Nat} (hdepth : 2 * n + 2 ≤ depth) (hle : depth ≤ depth')
    (p : Phrase) : Moves n (phrase depth p) (phrase depth' p) :=
  moves_phrase p (by cases p <;> (simp only [Phrase.need]; omega)) hle

/-- The declarations of a source end alike at any depth that is great enough. -/
theorem ends_declarations {n depth depth' : Nat} (hdepth : 2 * n + 2 ≤ depth)
    (hle : depth ≤ depth') : Ends n (declarations depth) (declarations depth') := by
  have := moves_phrases hdepth hle
  unfold declarations
  infer_instance

/-- **Building a source ends at its end token**, and no bound is used up. -/
theorem declarations_spec (functions : Array Function) (source : String) {depth : Nat}
    (hdepth : 2 * (scan source).length + 2 ≤ depth) :
    ∃ b token, declarations (2 * (scan source).length + 2)
        (.start functions source (scan source)) = .ok () b ∧
      declarations depth (.start functions source (scan source)) = .ok () b ∧
      peek b = .ok token b ∧ token.kind = .eof ∧
      ∀ e ∈ b.errors.toList, e.kind ≠ .nestingTooDeep := by
  let start := Builder.start functions source (scan source)
  have hlen : start.tokens.length ≤ (scan source).length := length_tokens_le start
  have hends := (ends_declarations (Nat.le_refl _) hdepth).ends start
    (ending_start functions source) hlen
  rcases hrun : declarations (2 * (scan source).length + 2) start with ⟨⟨⟩, b⟩ | ⟨e, b⟩
  · obtain ⟨b₁, hround⟩ := exists_last_round hrun
    obtain ⟨stop, b₂, hat, hround⟩ := ok_bind hround
    obtain ⟨token, b₃, hpeek, hat⟩ := ok_bind hat
    obtain ⟨hstop, rfl⟩ := EStateM.Result.ok.inj hat
    split at hround
    · next hkind =>
      cases hround
      have hpassed := hends.passed
      rw [after_of_ok hrun] at hpassed
      obtain ⟨new, hnew, hregular⟩ := hpassed.errors
      refine ⟨b, token, rfl, hends.agree ▸ hrun, peek_again hpeek, ?_, fun e he => ?_⟩
      · rw [← hstop] at hkind
        simpa using hkind
      · rw [hnew] at he
        exact (hregular e (by simpa [start, Builder.start] using he)).ne
    · obtain ⟨_, _, -, hround⟩ := ok_bind hround
      cases hround
  · exact absurd (unfailing_declarations _ start e b hrun) (hends.regular e b hrun).ne

/-! ## Branches that are never reached -/

/-- The rules that choose their instructions by the kind of the token they are called for. -/
inductive Rule where
  /-- An operator in front of its operand. -/
  | unary
  /-- A keyword that stands for a value. -/
  | literal
  /-- A sum or difference. -/
  | term
  /-- A product or quotient. -/
  | factor
  /-- A test of equality. -/
  | equality
  /-- A comparison. -/
  | comparison

namespace Rule

/-- The rule that a token at the start of an operand calls for. -/
def ofPrefix? : TokenKind → Option Rule
  | .minus | .bang => some .unary
  | .trueKw | .falseKw | .nilKw => some .literal
  | _ => none

/-- The rule that a token behind an operand calls for. -/
def ofInfix? : TokenKind → Option Rule
  | .plus | .minus => some .term
  | .asterisk | .slash => some .factor
  | .equalEqual | .bangEqual => some .equality
  | .greater | .greaterEqual | .less | .lessEqual => some .comparison
  | _ => none

/-- The instructions of a rule for a token; none where the rule is not meant for it. -/
def ops? : Rule → TokenKind → Option (List Opcode)
  | .unary, .minus => some [.negate]
  | .unary, .bang => some [.not]
  | .literal, .trueKw => some [.pushTrue]
  | .literal, .falseKw => some [.pushFalse]
  | .literal, .nilKw => some [.pushNil]
  | .term, .plus => some [.add]
  | .term, .minus => some [.subtract]
  | .factor, .asterisk => some [.multiply]
  | .factor, .slash => some [.divide]
  | .equality, .equalEqual => some [.equal]
  | .equality, .bangEqual => some [.notEqual]
  | .comparison, .greater => some [.greater]
  | .comparison, .greaterEqual => some [.less, .not]
  | .comparison, .less => some [.less]
  | .comparison, .lessEqual => some [.greater, .not]
  | _, _ => none

/-- How tightly the operators of a rule bind. -/
def precedence? : Rule → Option Precedence
  | .unary => some .unary
  | .literal => none
  | .term => some .term
  | .factor => some .factor
  | .equality => some .equality
  | .comparison => some .comparison

end Rule

/-- The next tighter precedence; nothing binds tighter than a call. -/
def Precedence.tighter? : Precedence → Option Precedence
  | .assignment => some .or
  | .or => some .and
  | .and => some .equality
  | .equality => some .comparison
  | .comparison => some .term
  | .term => some .factor
  | .factor => some .unary
  | .unary => some .call
  | .call => none

/-- A rule is called for tokens that it has instructions for only, and asks for the next tighter
precedence where there is one. -/
structure RulesMatch (inner : Phrase → Build Unit) : Prop where
  /-- At the start of an operand. -/
  operand : ∀ token rule canAssign, Rule.ofPrefix? token.kind = some rule →
    ∃ op, rule.ops? token.kind = some [op] ∧
      (primary inner token canAssign = unary inner op token ∨
        primary inner token canAssign = emitAt op token.line)
  /-- Behind an operand. -/
  operator : ∀ kind rule, Rule.ofInfix? kind = some rule →
    ∃ precedence tighter ops, rule.precedence? = some precedence ∧
      Precedence.tighter? precedence = some tighter ∧ rule.ops? kind = some ops ∧
      continuation? kind = some (precedence, .binary tighter ops)
  /-- No other token goes on with a second operand. -/
  only : ∀ kind precedence tighter ops,
    continuation? kind = some (precedence, .binary tighter ops) →
      ∃ rule, Rule.ofInfix? kind = some rule

/-- The rules of the grammar match each other. -/
theorem rulesMatch (inner : Phrase → Build Unit) : RulesMatch inner where
  operand token rule canAssign h := by
    unfold primary
    revert h
    cases token.kind <;> intro h <;> cases h
    · exact ⟨_, rfl, .inl rfl⟩
    · exact ⟨_, rfl, .inl rfl⟩
    all_goals exact ⟨_, rfl, .inr rfl⟩
  operator kind rule h := by
    cases kind <;> cases h
    all_goals exact ⟨_, _, _, rfl, rfl, rfl, rfl⟩
  only kind precedence tighter ops h := by
    cases kind <;> cases h
    all_goals exact ⟨_, rfl⟩

end Build

/-! ## Declarations -/

open Build

/-- **A declaration takes a token, well-formed or not**, so that every loop ends, a source is read
to its end token, and what is built does not depend on the depth. -/
theorem Builder.Ending.declaration_takes {b : Builder} (hb : b.Ending) {depth : Nat}
    (hdepth : 2 * b.tokens.length + 2 ≤ depth) :
    (∀ token b₁, peek b = .ok token b₁ → token.kind ≠ .eof →
      ∃ b', (∀ deeper, depth ≤ deeper → phrase deeper .declaration b = .ok () b') ∧ b.Passed b' ∧
        b'.tokens.length < b.tokens.length) ∧
    (∀ deeper, depth ≤ deeper → LoopsEnd (phrase depth) (phrase deeper) b) ∧
    (∀ functions source deeper, 2 * (scan source).length + 2 ≤ deeper →
      ∃ b' token, declarations (2 * (scan source).length + 2)
          (.start functions source (scan source)) = .ok () b' ∧
        declarations deeper (.start functions source (scan source)) = .ok () b' ∧
        peek b' = .ok token b' ∧ token.kind = .eof ∧
        ∀ e ∈ b'.errors.toList, e.kind ≠ .nestingTooDeep) ∧
    Matched (phrase depth) ∧ RulesMatch (phrase depth) := by
  refine ⟨fun token b₁ hpeek htoken => ?_, fun deeper hdeeper => ?_, fun functions source _ => ?_,
    matched_of_restores _, rulesMatch _⟩
  · obtain ⟨t, ts, htokens⟩ := hb.exists_cons
    obtain ⟨b₂, hpeek', -⟩ := peek_tokens hb htokens
    obtain ⟨rfl, -⟩ := EStateM.Result.ok.inj (hpeek.symm.trans hpeek')
    have hmoves := (moves_phrases hdepth (Nat.le_refl _) .declaration).moves b hb (Nat.le_refl _)
    have hpassed := hmoves.passed
    have hlt := hmoves.moved token ts htokens htoken
    rcases hrun : phrase depth .declaration b with ⟨⟨⟩, b'⟩ | ⟨e, b'⟩
    · rw [after_of_ok hrun] at hpassed hlt
      refine ⟨b', fun deeper hdeeper => ?_, hpassed, hlt⟩
      have hagree := (moves_phrases hdepth hdeeper .declaration).moves b hb (Nat.le_refl _)
      exact hagree.agree ▸ hrun
    · exact absurd (unfailing_phrase depth b e b' hrun) (hmoves.regular e b' hrun).ne
  · have := moves_phrases hdepth hdeeper
    exact loopsEnd _ _ hb (Nat.le_refl _)
  · exact declarations_spec functions source

/-- A declaration without a name, behind which another starts, so that recovery takes nothing. -/
def namelessVariable : String :=
  "var class"

/-- A declaration without a name is reported, and takes its tokens. -/
theorem declaration_takes_namelessVariable :
    ∃ b', (∀ deeper, 8 ≤ deeper → phrase deeper .declaration
        (.start #[] namelessVariable (scan namelessVariable)) = .ok () b') ∧
      b'.errors.size = 1 ∧ b'.tokens.length = 2 := by
  have htokens : (Builder.start #[] namelessVariable
    (scan namelessVariable)).tokens.length = 3 := by
    decide +kernel
  have hpeek : passes peek (.start #[] namelessVariable (scan namelessVariable))
      (fun token _ => token.kind != .eof) = true := by
    decide +kernel
  have hrun : passes (phrase 8 .declaration) (.start #[] namelessVariable (scan namelessVariable))
      (fun _ b' => b'.errors.size == 1 && b'.tokens.length == 2) = true := by
    decide +kernel
  have hending := ending_start #[] namelessVariable
  generalize Builder.start #[] namelessVariable (scan namelessVariable) = start at *
  have hdepth : 2 * start.tokens.length + 2 ≤ 8 := by omega
  have htakes := hending.declaration_takes hdepth
  obtain ⟨token, b₁, hpeek, hkind⟩ := exists_of_passes hpeek
  obtain ⟨b', hagree, -, -⟩ := htakes.1 token b₁ hpeek (by simpa using hkind)
  rw [passes, hagree 8 (Nat.le_refl _)] at hrun
  simp only [Bool.and_eq_true, beq_iff_eq] at hrun
  exact ⟨b', hagree, hrun.1, hrun.2⟩

end ScriptVM
