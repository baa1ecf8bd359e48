/-
# Reading tokens

What a step does may depend on the tokens in front of it.  Two steps that have the same clean runs
in front of the same tokens are told apart by nothing else (`Parses`), and where both are sequences
they can be compared part by part: a part that reads no token is the same on both sides
(`Parses.silent`), and one that reads a token knows which (`Parses.advance`, `expect`, `accept` and
so on).  A loop is compared round by round (`Leads`).
-/
import ScriptVM.Proofs.Program.Steps
import ScriptVM.Proofs.Syntax.Translation

namespace ScriptVM

/-- The builder has just these tokens to read. -/
def Builder.Reads (b : Builder) (tokens : List Token) : Prop :=
  b.pending = tokens.map .ok

theorem Builder.Reads.next {b : Builder} {t : Token} {us : List Token}
    (h : b.Reads (t :: us)) : b.next = t := by
  rw [Builder.next, h]
  rfl

theorem Builder.Reads.take {b : Builder} {t : Token} {us : List Token}
    (h : b.Reads (t :: us)) (ht : t.kind ≠ .eof) : b.take.Reads us := by
  rw [Builder.Reads, Builder.take, h.next, if_neg ht, h]
  rfl

namespace Build

variable {α β : Type}

/-! ## Steps that read no token -/

/-- A step that leaves the tokens alone. -/
class Silent (step : Build α) : Prop where
  /-- The tokens are those of before. -/
  pending_eq : ∀ b, (after step b).pending = b.pending

theorem Clean.pending_eq {step : Build α} [Silent step] {b b' : Builder} {a : α}
    (h : Clean step b a b') : b'.pending = b.pending := by
  rw [← after_of_ok h.1]
  exact Silent.pending_eq b

/-- Silent steps one behind the other are silent. -/
theorem silent_bind {x : Build α} {f : α → Build β} (hx : Silent x) (hf : ∀ a, Silent (f a)) :
    Silent (x >>= f) where
  pending_eq b := by
    have hx := hx.pending_eq b
    rcases h : x b with ⟨a, b₁⟩ | ⟨e, b₁⟩
    · rw [after_of_ok h] at hx
      have hbind : after (x >>= f) b = after (f a) b₁ := by
        rw [after, after, bind_of_ok h]
      rw [hbind, (hf a).pending_eq, hx]
    · rw [after_of_error h] at hx
      rw [after_of_error (bind_of_error h), hx]

theorem silent_modify {f : Builder → Builder} (h : ∀ b, (f b).pending = b.pending) :
    Silent (modify f : Build Unit) :=
  ⟨h⟩

instance (x : Build α) (f : α → Build β) [Silent x] [∀ a, Silent (f a)] : Silent (x >>= f) :=
  silent_bind inferInstance inferInstance

instance (a : α) : Silent (pure a : Build α) := ⟨fun _ => rfl⟩

instance : Silent (get : Build Builder) := ⟨fun _ => rfl⟩

instance (token : Token) (kind : ErrorKind) : Silent (fail token kind : Build α) :=
  ⟨fun _ => rfl⟩

instance (f : α → β) (x : Build α) [Silent x] : Silent (f <$> x) where
  pending_eq b := by
    have hmap : after (f <$> x) b = after x b := by
      show after (EStateM.map f x) b = after x b
      rw [after, after, EStateM.map]
      cases x b <;> rfl
    rw [hmap]
    exact Silent.pending_eq b

instance (c : Prop) [Decidable c] (x y : Build α) [Silent x] [Silent y] :
    Silent (if c then x else y) := by
  split <;> infer_instance

instance (token : Token) (outcome : Except ErrorKind α) : Silent (orFailAt token outcome) := by
  cases outcome <;> (unfold orFailAt; infer_instance)

instance {γ : Type} (xs : List γ) (f : γ → Build PUnit) [∀ x, Silent (f x)] :
    Silent (xs.forM f) := by
  induction xs with
  | nil => exact inferInstanceAs (Silent (pure _))
  | cons x rest ih => exact inferInstanceAs (Silent (f x >>= fun _ => rest.forM f))

instance {γ : Type} (xs : Array γ) (f : γ → Build PUnit) [∀ x, Silent (f x)] :
    Silent (xs.forM f) := by
  rw [forM_array_toList]
  infer_instance

instance (token : Token) (kind : ErrorKind) : Silent (noteAt token kind) := ⟨fun _ => rfl⟩

instance : Silent previousLine := by
  unfold previousLine
  infer_instance

instance : Silent codeSize := by
  unfold codeSize
  infer_instance

instance (f : FunctionContext → FunctionContext) : Silent (modifyContext f) :=
  silent_modify fun _ => rfl

instance (f : Chunk → Chunk) : Silent (modifyChunk f) :=
  silent_modify fun _ => rfl

instance (op : Opcode) (line : Nat) : Silent (emitAt op line) := by
  unfold emitAt
  infer_instance

instance (op : Opcode) : Silent (emit op) := by
  unfold emit
  infer_instance

instance (op : Opcode) (operand : UInt8) (line : Nat) : Silent (emitWithAt op operand line) := by
  unfold emitWithAt
  infer_instance

instance (byte : UInt8) (line : Nat) : Silent (emitByteAt byte line) := by
  unfold emitByteAt
  infer_instance

instance : Silent emitReturn := by
  unfold emitReturn
  infer_instance

instance (op : Opcode) (line : Nat) : Silent (emitJump op line) := by
  unfold emitJump
  infer_instance

instance (outcome : Except JumpError Chunk) : Silent (setChunk outcome) := by
  cases outcome <;> (unfold setChunk; infer_instance)

instance (offset : Nat) : Silent (patchJump offset) := by
  unfold patchJump
  infer_instance

instance (start line : Nat) : Silent (emitLoop start line) := by
  unfold emitLoop
  infer_instance

instance (jump line : Nat) : Silent (landAndDrop jump line) := by
  unfold landAndDrop
  infer_instance

instance (token : Token) (value : Value) : Silent (constantAt token value) := by
  unfold constantAt
  refine silent_bind inferInstance fun b => silent_bind inferInstance fun _ => ?_
  split <;> infer_instance

instance (value : Value) : Silent (constant value) := by
  unfold constant
  infer_instance

instance (name : Token) : Silent (nameConstant name) := by
  unfold nameConstant
  infer_instance

instance (name : String) (token : Token) : Silent (addLocal name token) := by
  unfold addLocal
  infer_instance

instance (name : Token) : Silent (declareVariable name) := by
  unfold declareVariable
  infer_instance

instance : Silent markInitialized := by
  unfold markInitialized
  infer_instance

instance (name? : Option UInt8) : Silent (defineVariable name?) := by
  cases name? <;> (unfold defineVariable; infer_instance)

instance (token : Token) : Silent (resolve token) := by
  unfold resolve
  refine silent_bind inferInstance fun b => silent_bind inferInstance fun slot? => ?_
  split
  · infer_instance
  · refine silent_bind (silent_modify fun _ => rfl) fun _ => ?_
    refine silent_bind inferInstance fun index? => ?_
    split <;> infer_instance

instance (token : Token) : Silent (readVariable token) := by
  unfold readVariable
  infer_instance

instance : Silent beginScope := by
  unfold beginScope
  infer_instance

instance : Silent endScope := by
  unfold endScope
  infer_instance

instance (name : String) (kind : FunctionKind) : Silent (beginFunction name kind) :=
  silent_modify fun _ => rfl

instance : Silent endFunction := by
  unfold endFunction
  refine silent_bind inferInstance fun _ => silent_bind inferInstance fun finished => ?_
  exact silent_bind (silent_modify fun b => by split <;> rfl) fun _ => inferInstance

instance (finished : FunctionContext) : Silent (keepFunction finished) := by
  unfold keepFunction
  refine silent_bind inferInstance fun b => ?_
  exact silent_bind (silent_modify fun _ => rfl) fun _ => inferInstance

instance (finished : FunctionContext) (line : Nat) : Silent (emitClosure finished line) := by
  unfold emitClosure
  infer_instance

instance (token : Token) : Silent (numberLiteral token) := by
  unfold numberLiteral
  dsimp only
  split <;> infer_instance

instance (token : Token) : Silent (stringLiteral token) := by
  unfold stringLiteral
  infer_instance

instance (token : Token) : Silent (literal token) := by
  unfold literal
  split <;> infer_instance

instance (token : Token) : Silent (selfAccess token) := by
  unfold selfAccess
  infer_instance

instance (token : Token) : Silent (requireSuperclass token) := by
  unfold requireSuperclass
  refine silent_bind inferInstance fun b => ?_
  split <;> infer_instance

instance (keyword : Token) : Silent (readSuperclass keyword) := by
  unfold readSuperclass
  infer_instance

instance (token : Token) (kind : ErrorKind) (wrong : Bool) : Silent (refuse token kind wrong) := by
  unfold refuse
  infer_instance

instance (excess : ErrorKind) (count : Nat) : Silent (limit excess count) := by
  unfold limit
  infer_instance

instance : Silent countParameter := by
  unfold countParameter
  infer_instance

instance : Silent markSuperclass :=
  silent_modify fun b => by split <;> rfl

instance : Silent beginClass :=
  silent_modify fun _ => rfl

instance : Silent endClass := by
  unfold endClass
  refine silent_bind inferInstance fun b => ?_
  exact silent_bind (silent_modify fun _ => rfl) fun _ => inferInstance

/-! ## Clean runs of sequences -/

theorem clean_congr {x y : Build α} {b b₁ : Builder} (h : x b = y b₁) (a : α) (b' : Builder) :
    Clean x b a b' ↔ Clean y b₁ a b' := by
  rw [Clean, Clean, h]

theorem Clean.then {x : Build α} {f : α → Build β} {b b₁ b' : Builder} {a : α} {c : β}
    (hx : Clean x b a b₁) (hf : Clean (f a) b₁ c b') : Clean (x >>= f) b c b' :=
  (clean_congr (bind_of_ok hx.1) c b').2 hf

/-- A sequence is clean just if both of its parts are. -/
theorem clean_bind_iff {x : Build α} {f : α → Build β} [∀ a, Cumulative (f a)] {b b' : Builder}
    {c : β} : Clean (x >>= f) b c b' ↔ ∃ a b₁, Clean x b a b₁ ∧ Clean (f a) b₁ c b' := by
  constructor
  · exact Clean.bind
  · rintro ⟨a, b₁, hx, hf⟩
    exact hx.then hf

/-- A clean run of two steps in a row starts with a run of the first. -/
theorem Clean.exists_ok {x : Build α} {f : α → Build β} {b b' : Builder} {c : β}
    (h : Clean (x >>= f) b c b') : ∃ a b₁, x b = .ok a b₁ ∧ Clean (f a) b₁ c b' := by
  rcases hx : x b with ⟨a, b₁⟩ | ⟨e, b₁⟩
  · exact ⟨a, b₁, rfl, (clean_congr (bind_of_ok hx) c b').1 h⟩
  · exact absurd h.1 (by rw [bind_of_error hx]; simp)

/-! ## Tokens in front -/

/-- The token at hand is the first one to be read. -/
theorem peek_of_reads {b : Builder} {t : Token} {us : List Token} (h : b.Reads (t :: us)) :
    peek b = .ok t b := by
  have hsettle : settle b.source b.errors b.pending = (b.errors, b.pending) := by
    rw [h]
    rfl
  rw [peek, hsettle, ← h.next, Builder.next]

theorem advance_of_reads {b : Builder} {t : Token} {us : List Token} (h : b.Reads (t :: us)) :
    advance b = .ok t b.take := by
  rw [advance, bind_of_ok (peek_of_reads h), Builder.take, h.next]
  rfl

theorem pass_of_reads {b : Builder} {t : Token} {us : List Token} (h : b.Reads (t :: us)) :
    pass b = .ok () b.take := by
  rw [pass, bind_of_ok (advance_of_reads h)]
  rfl

theorem check_of_reads {b : Builder} {t : Token} {us : List Token} (h : b.Reads (t :: us))
    (kind : TokenKind) : check kind b = .ok (decide (t.kind = kind)) b := by
  rw [check, bind_of_ok (peek_of_reads h)]
  rfl

/-! ## Steps that read the same -/

/-- In front of the tokens `ts` and then `rest`, two steps have the same clean runs, and these end
in front of `rest`. -/
structure Parses (x y : Build α) (ts rest : List Token) : Prop where
  /-- The clean runs are the same. -/
  runs : ∀ b, b.Reads (ts ++ rest) → ∀ a b', Clean x b a b' ↔ Clean y b a b'
  /-- They pass over the tokens `ts`. -/
  ends : ∀ b, b.Reads (ts ++ rest) → ∀ a b', Clean y b a b' → b'.Reads rest

namespace Parses

variable {x y : Build α} {f g : α → Build β} {z : Build β} {t : Token} {ts us rest : List Token}

/-- A step reads the same as itself where no tokens are left. -/
theorem done (x : Build α) [Silent x] : Parses x x [] rest where
  runs _ _ _ _ := Iff.rfl
  ends b hb a b' h := by
    rw [Builder.Reads, h.pending_eq]
    exact hb

/-- The first steps are compared, and then the rest. -/
theorem bind [∀ a, Cumulative (f a)] [∀ a, Cumulative (g a)] (hx : Parses x y ts (us ++ rest))
    (hf : ∀ a, Parses (f a) (g a) us rest) : Parses (x >>= f) (y >>= g) (ts ++ us) rest where
  runs b hb c b' := by
    rw [List.append_assoc] at hb
    rw [clean_bind_iff, clean_bind_iff]
    constructor
    · rintro ⟨a, b₁, hx₁, hf₁⟩
      have hy₁ := (hx.runs b hb a b₁).1 hx₁
      exact ⟨a, b₁, hy₁, ((hf a).runs b₁ (hx.ends b hb a b₁ hy₁) c b').1 hf₁⟩
    · rintro ⟨a, b₁, hy₁, hg₁⟩
      exact ⟨a, b₁, (hx.runs b hb a b₁).2 hy₁, ((hf a).runs b₁ (hx.ends b hb a b₁ hy₁) c b').2 hg₁⟩
  ends b hb c b' h := by
    rw [List.append_assoc] at hb
    obtain ⟨a, b₁, hy₁, hg₁⟩ := h.bind
    exact (hf a).ends b₁ (hx.ends b hb a b₁ hy₁) c b' hg₁

/-- A step that reads nothing is done on both sides. -/
theorem silent [Silent x] (hf : ∀ a, Parses (f a) (g a) ts rest) :
    Parses (x >>= f) (x >>= g) ts rest := by
  have hgo : ∀ {h : α → Build β} {b b' : Builder} {c : β}, Clean (x >>= h) b c b' →
      ∃ a b₁, x b = .ok a b₁ ∧ b₁.pending = b.pending ∧ Clean (h a) b₁ c b' := by
    intro h b b' c hclean
    obtain ⟨a, b₁, hx, hrest⟩ := hclean.exists_ok
    refine ⟨a, b₁, hx, ?_, hrest⟩
    rw [← after_of_ok hx]
    exact Silent.pending_eq b
  constructor
  · intro b hb c b'
    constructor <;> intro hclean <;> obtain ⟨a, b₁, hx, hpending, hrest⟩ := hgo hclean
    · have hb₁ : b₁.Reads (ts ++ rest) := hpending.trans hb
      exact (clean_congr (bind_of_ok hx) c b').2 (((hf a).runs b₁ hb₁ c b').1 hrest)
    · have hb₁ : b₁.Reads (ts ++ rest) := hpending.trans hb
      exact (clean_congr (bind_of_ok hx) c b').2 (((hf a).runs b₁ hb₁ c b').2 hrest)
  · intro b hb c b' hclean
    obtain ⟨a, b₁, -, hpending, hrest⟩ := hgo hclean
    exact (hf a).ends b₁ (hpending.trans hb) c b' hrest

/-- A last step that reads nothing. -/
theorem bind_done {x y : Build Unit} {w : Build β} [Silent w] [Cumulative w]
    (hx : Parses x y ts rest) : Parses (x >>= fun _ => w) (y >>= fun _ => w) ts rest := by
  have h : Parses (x >>= fun _ => w) (y >>= fun _ => w) (ts ++ []) rest := hx.bind fun _ => done w
  rwa [List.append_nil] at h

theorem congr {y' : Build α} {ts' : List Token} (h : Parses x y ts rest) (hy : y = y')
    (hts : ts = ts') : Parses x y' ts' rest :=
  hts ▸ hy ▸ h

/-- Steps that never run cleanly. -/
theorem never (hx : ∀ b a b', ¬ Clean x b a b') (hy : ∀ b a b', ¬ Clean y b a b') :
    Parses x y ts rest :=
  ⟨fun b _ a b' => ⟨fun h => absurd h (hx b a b'), fun h => absurd h (hy b a b')⟩,
    fun b _ a b' h => absurd h (hy b a b')⟩

/-- The tokens that are still to be read are known. -/
theorem pending {f : List ScanItem → Build β} (hf : Parses (f ((ts ++ rest).map .ok)) z ts rest) :
    Parses (do f (← get).pending) z ts rest := by
  refine ⟨fun b hb c b' => ?_, hf.ends⟩
  have hrun : (do f (← get).pending : Build β) b = f ((ts ++ rest).map .ok) b := by
    rw [← hb]
    rfl
  rw [clean_congr hrun]
  exact hf.runs b hb c b'

/-- Looking at the token at hand goes on with that token. -/
theorem peek {f : Token → Build β} {tokens : List Token} (htokens : ts ++ rest = t :: tokens)
    (hf : Parses (f t) z ts rest) : Parses (peek >>= f) z ts rest where
  runs b hb c b' :=
    (clean_congr (bind_of_ok (peek_of_reads (htokens ▸ hb))) c b').trans (hf.runs b hb c b')
  ends := hf.ends

/-- Checking the token at hand goes on with what it is. -/
theorem check {f : Bool → Build β} {tokens : List Token} {kind : TokenKind}
    (htokens : ts ++ rest = t :: tokens) (hf : Parses (f (decide (t.kind = kind))) z ts rest) :
    Parses (check kind >>= f) z ts rest where
  runs b hb c b' :=
    (clean_congr (bind_of_ok (check_of_reads (htokens ▸ hb) kind)) c b').trans (hf.runs b hb c b')
  ends := hf.ends

/-- A token that is taken is passed over. -/
theorem advance {f : Token → Build β} (ht : t.kind ≠ .eof) (hf : Parses (f t) z ts rest) :
    Parses (advance >>= f) (pass >>= fun _ => z) (t :: ts) rest where
  runs b hb c b' := by
    rw [clean_congr (bind_of_ok (advance_of_reads hb)) c b',
      clean_congr (bind_of_ok (pass_of_reads hb)) c b']
    exact hf.runs b.take (hb.take ht) c b'
  ends b hb c b' h := by
    rw [clean_congr (bind_of_ok (pass_of_reads hb)) c b'] at h
    exact hf.ends b.take (hb.take ht) c b' h

/-- A token that is expected and found is passed over. -/
theorem expect {f : Token → Build β} {what : Expectation} (ht : t.kind = what.kind)
    (hf : Parses (f t) z ts rest) :
    Parses (expect what >>= f) (pass >>= fun _ => z) (t :: ts) rest := by
  have heof : t.kind ≠ .eof := by
    rw [ht]
    cases what <;> simp [Expectation.kind]
  have hexpect : ∀ b, b.Reads (t :: ts ++ rest) → Build.expect what b = Build.advance b := by
    intro b hb
    rw [Build.expect, bind_of_ok (peek_of_reads hb), if_pos ht]
  have hadvance : Parses (Build.advance >>= f) (pass >>= fun _ => z) (t :: ts) rest :=
    advance heof hf
  refine ⟨fun b hb c b' => ?_, hadvance.ends⟩
  have hrun := (hexpect b hb).trans (advance_of_reads hb)
  rw [clean_congr (bind_of_ok hrun) c b',
    ← clean_congr (bind_of_ok (f := f) (advance_of_reads hb)) c b']
  exact hadvance.runs b hb c b'

/-- A token that is accepted is passed over. -/
theorem accept {f : Bool → Build β} {kind : TokenKind} (ht : t.kind = kind) (heof : kind ≠ .eof)
    (hf : Parses (f true) z ts rest) :
    Parses (accept kind >>= f) (pass >>= fun _ => z) (t :: ts) rest := by
  have haccept : ∀ b, b.Reads (t :: ts ++ rest) → Build.accept kind b = .ok true b.take := by
    intro b hb
    rw [Build.accept, bind_of_ok (check_of_reads hb kind), if_pos (decide_eq_true ht),
      bind_of_ok (advance_of_reads hb)]
    rfl
  refine ⟨fun b hb c b' => ?_, fun b hb c b' h => ?_⟩
  · rw [clean_congr (bind_of_ok (haccept b hb)) c b',
      clean_congr (bind_of_ok (pass_of_reads hb)) c b']
    exact hf.runs b.take (hb.take (ht ▸ heof)) c b'
  · rw [clean_congr (bind_of_ok (pass_of_reads hb)) c b'] at h
    exact hf.ends b.take (hb.take (ht ▸ heof)) c b' h

/-- A token that is not accepted is left where it is. -/
theorem not_accept {f : Bool → Build β} {kind : TokenKind} {tokens : List Token}
    (htokens : ts ++ rest = t :: tokens) (ht : t.kind ≠ kind) (hf : Parses (f false) z ts rest) :
    Parses (Build.accept kind >>= f) z ts rest := by
  have haccept : ∀ b, b.Reads (ts ++ rest) → Build.accept kind b = .ok false b := by
    intro b hb
    rw [Build.accept, bind_of_ok (check_of_reads (htokens ▸ hb) kind), if_neg (by simpa using ht)]
    rfl
  exact ⟨fun b hb c b' =>
    (clean_congr (bind_of_ok (haccept b hb)) c b').trans (hf.runs b hb c b'), hf.ends⟩

theorem accept_then {v w : Build β} {kind : TokenKind} (ht : t.kind = kind) (heof : kind ≠ .eof)
    (hv : Parses v z ts rest) :
    Parses (do if ← Build.accept kind then v else w) (pass >>= fun _ => z) (t :: ts) rest :=
  accept ht heof hv

theorem accept_else {v w : Build β} {kind : TokenKind} {tokens : List Token}
    (htokens : ts ++ rest = t :: tokens) (ht : t.kind ≠ kind) (hw : Parses w z ts rest) :
    Parses (do if ← Build.accept kind then v else w) z ts rest :=
  not_accept htokens ht hw

/-- Whether a list or block ends is told by the token at hand. -/
theorem atEnd {f : Bool → Build β} {kind : TokenKind} {tokens : List Token}
    (htokens : ts ++ rest = t :: tokens)
    (hf : Parses (f (t.kind = kind || t.kind = .eof)) z ts rest) :
    Parses (Build.atEnd kind >>= f) z ts rest := by
  have hend : ∀ b, b.Reads (ts ++ rest) →
      Build.atEnd kind b = .ok (t.kind = kind || t.kind = .eof) b := by
    intro b hb
    rw [Build.atEnd, bind_of_ok (peek_of_reads (htokens ▸ hb))]
    rfl
  exact ⟨fun b hb c b' =>
    (clean_congr (bind_of_ok (hend b hb)) c b').trans (hf.runs b hb c b'), hf.ends⟩

end Parses

/-! ## Loops, round by round -/

/-- In front of the tokens `ts` and then `rest`, the clean runs of `x` are those of `y` followed by
`z`, and `y` passes over the tokens `ts`. -/
structure Leads (x y z : Build Unit) (ts rest : List Token) : Prop where
  /-- The clean runs are those of the two steps in a row. -/
  runs : ∀ b, b.Reads (ts ++ rest) →
    ∀ u b', Clean x b u b' ↔ ∃ b₁, Clean y b () b₁ ∧ Clean z b₁ u b'
  /-- The first of them passes over the tokens `ts`. -/
  ends : ∀ b, b.Reads (ts ++ rest) → ∀ b₁, Clean y b () b₁ → b₁.Reads rest

namespace Leads

variable {x y z v w : Build Unit} {ts us rest : List Token}

/-- Rounds of a loop that lead on can be put together. -/
theorem trans [Cumulative w] (h₁ : Leads x y z ts (us ++ rest)) (h₂ : Leads z w v us rest) :
    Leads x (y >>= fun _ => w) v (ts ++ us) rest where
  runs b hb u b' := by
    rw [List.append_assoc] at hb
    rw [h₁.runs b hb]
    constructor
    · rintro ⟨b₁, hy, hz⟩
      obtain ⟨b₂, hw, hv⟩ := (h₂.runs b₁ (h₁.ends b hb b₁ hy) u b').1 hz
      exact ⟨b₂, hy.then hw, hv⟩
    · rintro ⟨b₂, hyw, hv⟩
      obtain ⟨_, b₁, hy, hw⟩ := hyw.bind
      exact ⟨b₁, hy, (h₂.runs b₁ (h₁.ends b hb b₁ hy) u b').2 ⟨b₂, hw, hv⟩⟩
  ends b hb b₂ h := by
    rw [List.append_assoc] at hb
    obtain ⟨_, b₁, hy, hw⟩ := h.bind
    exact h₂.ends b₁ (h₁.ends b hb b₁ hy) b₂ hw

/-- A round that asks for another. -/
theorem of_true {round : Build Bool} {k : Bool → Build Unit} [∀ again, Cumulative (k again)]
    (h : Parses round (y >>= fun _ => pure true) ts rest) :
    Leads (round >>= k) y (k true) ts rest where
  runs b hb u b' := by
    rw [clean_bind_iff]
    constructor
    · rintro ⟨again, b₁, hround, hk⟩
      obtain ⟨_, b₂, hy, hpure⟩ := ((h.runs b hb again b₁).1 hround).bind
      obtain ⟨rfl, rfl⟩ := hpure.of_pure
      exact ⟨b₂, hy, hk⟩
    · rintro ⟨b₁, hy, hk⟩
      exact ⟨true, b₁, (h.runs b hb true b₁).2 (hy.then ⟨rfl, hy.2⟩), hk⟩
  ends b hb b₁ hy := h.ends b hb true b₁ (hy.then ⟨rfl, hy.2⟩)

/-- A loop that stops in front of `rest` has read what its rounds did. -/
theorem parses (h : Leads x y z ts rest)
    (hz : ∀ b, b.Reads rest → z b = .ok () b) : Parses x y ts rest where
  runs b hb _ b' := by
    rw [h.runs b hb]
    constructor
    · rintro ⟨b₁, hy, hrest⟩
      have hrun := hrest.1
      rw [hz b₁ (h.ends b hb b₁ hy)] at hrun
      injection hrun with _ heq
      exact heq ▸ hy
    · intro hy
      exact ⟨b', hy, hz b' (h.ends b hb b' hy), hy.2⟩
  ends b hb _ b' hy := h.ends b hb b' hy

/-- What is done behind the first of two steps is compared with something else. -/
theorem then_parses [Cumulative w] {x y z : Build Unit} (h : Leads x y z ts (us ++ rest))
    (hz : Parses z w us rest) : Parses x (y >>= fun _ => w) (ts ++ us) rest where
  runs b hb u b' := by
    rw [List.append_assoc] at hb
    rw [h.runs b hb, clean_bind_iff]
    constructor
    · rintro ⟨b₁, hy, hrun⟩
      exact ⟨(), b₁, hy, (hz.runs b₁ (h.ends b hb b₁ hy) u b').1 hrun⟩
    · rintro ⟨_, b₁, hy, hrun⟩
      exact ⟨b₁, hy, (hz.runs b₁ (h.ends b hb b₁ hy) u b').2 hrun⟩
  ends b hb u b' hrun := by
    rw [List.append_assoc] at hb
    obtain ⟨_, b₁, hy, hw⟩ := hrun.bind
    exact hz.ends b₁ (h.ends b hb b₁ hy) u b' hw

end Leads

/-! ## Repetition -/

namespace Parses

variable {round : Build Bool} [Cumulative round] {y z : Build Unit} {ts us rest : List Token}
  {item : ScanItem} {items : List ScanItem}

theorem repeatWhile {round : Build Bool}
    (h : Parses (repeatOver round ((ts ++ rest).map .ok)) y ts rest) :
    Parses (repeatWhile round) y ts rest :=
  pending h

/-- A round that asks for another, and the others. -/
theorem again [Cumulative z] (hround : Parses round (do y; return true) ts (us ++ rest))
    (h : Parses (repeatOver round items) z us rest) :
    Parses (repeatOver round (item :: items)) (do y; z) (ts ++ us) rest := by
  rw [repeatOver]
  exact (Leads.of_true hround).then_parses h

/-- The last round. -/
theorem stop {round : Build Bool} (hround : ∀ b, b.Reads rest → round b = .ok false b) :
    Parses (repeatOver round (item :: items)) (pure ()) [] rest := by
  rw [repeatOver]
  refine ⟨fun b hb u b' => ?_, (done (pure ())).ends⟩
  rw [clean_congr (bind_of_ok (hround b hb))]
  rfl

end Parses

end Build

end ScriptVM
