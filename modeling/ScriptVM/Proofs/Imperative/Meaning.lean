/-
# Compiled scripts mean what their sources say

An imperative source is compiled to a script that does what its syntax tree says: it prints the same
lines, leaves the same global variables, ends with the same error or with none, and goes on forever
just if the tree does.  The one exception is that it may run out of stack slots.

Main statement: `Machine.Idle.agrees`.
-/
import ScriptVM.Proofs.Imperative.Compilation
import ScriptVM.Proofs.Session.Quiescence
import ScriptVM.Proofs.Session.Soundness
import ScriptVM.Proofs.Syntax.Acceptance

namespace ScriptVM

open Build (Clean)

/-! ## Trees of sources -/

/-- A token as a source can have it. -/
def Token.Proper (token : Token) : Prop :=
  token.Plain ∧ (token.kind = .number → Numeral token.lexeme.toList)

theorem Token.proper_of_mem_scan {source : String} {token : Token} (h : .ok token ∈ scan source) :
    token.Proper :=
  ⟨plain_of_mem_scan h token rfl, numeral_of_mem_scan h⟩

theorem Token.Proper.lexeme_ne {token : Token} (h : token.Proper)
    (hkind : token.kind = .identifier) :
    token.lexeme ≠ "" :=
  (h.1.identifier hkind).1

/-- A tree whose names and numbers are written as a source can have them.  What stands behind `else`
declares nothing. -/
def Nonterminal.Readable : Nonterminal → Prop
  | .expression _ e => e.Readable
  | .declaration d => d.Readable
  | .declarations ds | .block ds => Decl.ReadableAll ds
  | .conditional d | .alternative d => d.name? = none ∧ d.Readable
  | _ => True

/-- What the grammar derives from proper tokens is readable. -/
theorem Derives.readable {n : Nonterminal} {ts : List Token} (h : Derives n ts)
    (hts : ∀ t ∈ ts, t.Proper) : n.Readable := by
  -- By induction on the derivation: the tokens of a phrase are proper, so those of its parts are.
  induction h with
  | tighter _ ih | blockStatement _ ih => exact ih hts
  | assign hname _ _ ih =>
    simp only [List.forall_mem_cons] at hts
    exact ⟨hts.1.lexeme_ne hname, ih hts.2.2⟩
  | disjunction _ _ _ ihl ihr | conjunction _ _ _ ihl ihr | binary _ _ _ ihl ihr =>
    simp only [List.forall_mem_append, List.forall_mem_cons] at hts
    exact ⟨ihl hts.1, ihr hts.2.2⟩
  | unary _ _ ih =>
    simp only [List.forall_mem_cons] at hts
    exact ih hts.2
  | literal _ => exact (List.forall_mem_singleton.1 hts).2
  | ident hkind => exact (List.forall_mem_singleton.1 hts).lexeme_ne hkind
  | grouping _ _ _ ih | block _ _ _ ih | print _ _ _ ih =>
    simp only [List.cons_append, List.forall_mem_append, List.forall_mem_cons] at hts
    exact ih hts.2.1
  | noDeclarations => trivial
  | declarations _ _ ih ihs =>
    simp only [List.forall_mem_append] at hts
    exact ⟨ih hts.1, ihs hts.2⟩
  | conditional _ _ ih =>
    simp only [List.forall_mem_cons] at hts
    exact (ih hts.2).2
  | elseIf _ _ ih =>
    simp only [List.forall_mem_cons] at hts
    exact ih hts.2
  | elseBlock _ ih => exact ⟨rfl, ih hts⟩
  | ifThen _ _ ih ihs =>
    simp only [List.forall_mem_append] at hts
    exact ⟨rfl, ih hts.1, ihs hts.2⟩
  | ifElse _ _ _ _ ih ihs iha =>
    simp only [List.forall_mem_append, List.forall_mem_cons] at hts
    obtain ⟨hname, hreadable⟩ := iha hts.2.2
    exact ⟨hname, ih hts.1.1, ihs hts.1.2, hname, hreadable⟩
  | loop _ _ _ ih ihs =>
    simp only [List.cons_append, List.forall_mem_append, List.forall_mem_cons] at hts
    exact ⟨ih hts.2.1, ihs hts.2.2⟩
  | expression _ _ ih =>
    simp only [List.forall_mem_append] at hts
    exact ih hts.1
  | varWith _ _ _ _ _ ih =>
    simp only [List.cons_append, List.forall_mem_append, List.forall_mem_cons] at hts
    exact ih hts.2.2.2.1
  | _ => trivial

/-! ## The imperative fragment -/

/-- Whether an expression is made of literals, variables, assignments to variables, groupings and
operators. -/
def Expr.isImperative : Expr → Bool
  | .literal _ | .ident _ => true
  | .grouping e | .unary _ e | .assign _ e => e.isImperative
  | .binary left _ right | .conjunction left _ right | .disjunction left _ right =>
    left.isImperative && right.isImperative
  | _ => false

mutual

/-- Whether a declaration is made of variable declarations, blocks, print and expression statements,
conditional statements and loops. -/
def Decl.isImperative : Decl → Bool
  | .var _ none => true
  | .var _ (some value) | .print _ value | .expression value => value.isImperative
  | .block body => Decl.areImperative body
  | .ifThen condition body | .loop condition body =>
    condition.isImperative && Decl.areImperative body
  | .ifElse condition body alternative =>
    condition.isImperative && Decl.areImperative body && alternative.isImperative
  | _ => false

/-- Whether declarations in a row are imperative. -/
def Decl.areImperative : List Decl → Bool
  | [] => true
  | d :: ds => d.isImperative && Decl.areImperative ds

end

/-- An imperative tree that obeys the static rules has a meaning. -/
def Nonterminal.Meaningful (display : Value → String) : Nonterminal → Prop
  | .expression _ e => e.isImperative → ∀ site, e.Legal site → ∃ x, e.eval? = some x
  | .declaration d | .conditional d | .alternative d =>
    d.isImperative → ∀ site, d.Legal site → ∃ act, d.eval? display = some act
  | .declarations ds | .block ds =>
    Decl.areImperative ds → ∀ site, Decl.LegalAll site ds → ∃ act,
      Decl.evalAll? display ds = some act
  | _ => True

/-- A literal token has a value. -/
theorem Token.exists_literal {token : Token} (hkind : token.kind ∈ TokenKind.literals)
    (hnumber : token.kind = .number → token.number?.isSome) : ∃ v, token.literal? = some v := by
  rw [Token.literal?]
  simp only [TokenKind.literals, List.mem_cons, List.not_mem_nil, or_false] at hkind
  rcases hkind with h | h | h | h | h
  · rw [h]
    exact Option.isSome_iff_exists.1 (hnumber h)
  all_goals
    rw [h]
    exact ⟨_, rfl⟩

theorem TokenKind.exists_unary {kind : TokenKind} (h : kind ∈ [.bang, .minus]) :
    ∃ f, kind.unary? = some f := by
  simp only [List.mem_cons, List.not_mem_nil, or_false] at h
  rcases h with rfl | rfl <;> exact ⟨_, rfl⟩

/-- A sign of a binary operator has a meaning. -/
theorem TokenKind.exists_binary {p : Precedence} {kind : TokenKind} (h : kind ∈ p.signs) :
    ∃ f, kind.binary? = some f := by
  cases p <;> simp only [Precedence.signs, List.mem_cons, List.not_mem_nil, or_false] at h
  case equality | term | factor => rcases h with rfl | rfl <;> exact ⟨_, rfl⟩
  case comparison => rcases h with rfl | rfl | rfl | rfl <;> exact ⟨_, rfl⟩

/-- What the grammar derives has a meaning, if it is imperative and keeps the static rules. -/
theorem Derives.meaningful (display : Value → String) {n : Nonterminal} {ts : List Token}
    (h : Derives n ts) : n.Meaningful display := by
  -- By induction on the derivation. `hi` says that each part is imperative too and `hlegal` that
  -- each part keeps the rules, so every operand has a meaning.
  induction h with
  | tighter _ ih => exact ih
  | assign _ _ _ ih =>
    intro hi site hlegal
    obtain ⟨x, hx⟩ := ih hi site hlegal.2
    exact ⟨_, by rw [Expr.eval?, hx]; rfl⟩
  | disjunction _ _ _ ihl ihr | conjunction _ _ _ ihl ihr =>
    intro hi site hlegal
    rw [Expr.isImperative, Bool.and_eq_true] at hi
    obtain ⟨x, hx⟩ := ihl hi.1 site hlegal.1
    obtain ⟨y, hy⟩ := ihr hi.2 site hlegal.2.1
    exact ⟨_, by rw [Expr.eval?, hx, hy]; rfl⟩
  | binary _ hsign _ ihl ihr =>
    intro hi site hlegal
    rw [Expr.isImperative, Bool.and_eq_true] at hi
    -- An operator of the grammar is one that the evaluator knows.
    obtain ⟨f, hf⟩ := TokenKind.exists_binary hsign
    obtain ⟨x, hx⟩ := ihl hi.1 site hlegal.1
    obtain ⟨y, hy⟩ := ihr hi.2 site hlegal.2
    exact ⟨_, by rw [Expr.eval?, hf, hx, hy]; rfl⟩
  | unary hsign _ ih =>
    intro hi site hlegal
    obtain ⟨f, hf⟩ := TokenKind.exists_unary hsign
    obtain ⟨x, hx⟩ := ih hi site hlegal
    exact ⟨_, by rw [Expr.eval?, hf, hx]; rfl⟩
  | literal hkind =>
    intro _ site hlegal
    -- The static rules are needed here: a literal out of range has no value.
    obtain ⟨v, hv⟩ := Token.exists_literal hkind hlegal
    exact ⟨_, by rw [Expr.eval?, hv]; rfl⟩
  | ident _ => exact fun _ _ _ => ⟨_, rfl⟩
  | grouping _ _ _ ih | block _ _ _ ih => exact ih
  | noDeclarations => exact fun _ _ _ => ⟨_, rfl⟩
  | declarations _ _ ih ihs =>
    intro hi site hlegal
    rw [Decl.areImperative, Bool.and_eq_true] at hi
    obtain ⟨act, hact⟩ := ih hi.1 site hlegal.1
    obtain ⟨rest, hrest⟩ := ihs hi.2 _ hlegal.2
    exact ⟨_, by rw [Decl.evalAll?, hact, hrest]; rfl⟩
  | var _ _ _ => exact fun _ _ _ => ⟨_, by rw [Decl.eval?]⟩
  | varWith _ _ _ _ _ ih =>
    intro hi site hlegal
    obtain ⟨x, hx⟩ := ih hi _ hlegal.2
    exact ⟨_, by rw [Decl.eval?, hx]; rfl⟩
  | print _ _ _ ih | expression _ _ ih =>
    intro hi site hlegal
    obtain ⟨x, hx⟩ := ih hi site hlegal
    exact ⟨_, by rw [Decl.eval?, hx]; rfl⟩
  | blockStatement _ ih | elseBlock _ ih =>
    intro hi site hlegal
    obtain ⟨act, hact⟩ := ih hi _ hlegal
    exact ⟨_, by rw [Decl.eval?, hact]; rfl⟩
  | conditional _ _ ih | elseIf _ _ ih => exact ih
  | ifThen _ _ ih ihs | loop _ _ _ ih ihs =>
    intro hi site hlegal
    rw [Decl.isImperative, Bool.and_eq_true] at hi
    obtain ⟨x, hx⟩ := ih hi.1 site hlegal.1
    obtain ⟨act, hact⟩ := ihs hi.2 _ hlegal.2.1
    exact ⟨_, by rw [Decl.eval?, hx, hact]; rfl⟩
  | ifElse _ _ _ _ ih ihs iha =>
    intro hi site hlegal
    rw [Decl.isImperative, Bool.and_eq_true, Bool.and_eq_true] at hi
    obtain ⟨x, hx⟩ := ih hi.1.1 site hlegal.1
    obtain ⟨act, hact⟩ := ihs hi.1.2 _ hlegal.2.1
    obtain ⟨other, hother⟩ := iha hi.2 site hlegal.2.2.2.1
    exact ⟨_, by rw [Decl.eval?, hx, hact, hother]; rfl⟩
  | noList | someList _ _ | last _ _ | more _ _ _ _ _ | lastName _ | moreNames _ _ _ _
  | noParameters _ _ | parameters _ _ _ _ | computed _ _ _ _ | method _ _ _ _ _ | noMembers
  -- Lists, parameters and members have no meaning of their own.
  | members _ _ _ _ => trivial
  | _ =>
    -- What is left is not imperative.
    intro hi
    cases hi

/-! ## Scripts that are started and left -/

namespace Machine

variable {m : Machine} {main : FunctionId}

/-- The script that runs once a function is started. -/
def scriptOf (m : Machine) (main : FunctionId) : Script :=
  ⟨(m.heap.newClosure ⟨main, #[]⟩).2, (m.heap.newClosure ⟨main, #[]⟩).1⟩

/-- The code of the script at hand is that of its function. -/
theorem chunk_scriptOf (m : Machine) (main : FunctionId) :
    (m.scriptOf main).chunk = (m.heap.function main).chunk := by
  have hclosure : (m.heap.newClosure ⟨main, #[]⟩).2.closure (m.heap.newClosure ⟨main, #[]⟩).1 =
      ⟨main, #[]⟩ := by
    simp [Heap.newClosure, Heap.closure]
  rw [Script.chunk, scriptOf, Heap.functionOf, hclosure]
  rfl

/-- A script that is started on an idle machine stands at its first instruction. -/
theorem Idle.starts (h : m.Idle) (harity : (m.heap.function main).arity = 0)
    (hglobals : m.globals.All (·.hasInstance = false)) :
    ∃ m', m.launch main = .running m' ∧
      (m.scriptOf main).Stands [] 0 [] ⟨[], m.globals, m.sink⟩ m' := by
  have hvalues : m.values = [] := by
    rw [values, h.stack]
    rfl
  have hcalls : m.calls = [] := by
    rw [calls, h.frames]
    rfl
  have hroom : m.stack.size < stackLimit := by
    rw [h.stack]
    decide
  have hframes : m.frames.size < frameLimit := by
    rw [h.frames]
    decide
  -- The closure is made, pushed and entered, and there is room for each of these.
  let closure := (m.scriptOf main).closure
  let made : Machine := { m with heap := (m.scriptOf main).heap }
  let called : Machine := { made with stack := m.stack.pushOf (.closureRef closure) hroom }
  have hpush : Exec.push (.closureRef closure) made = .ok () called := dif_pos hroom
  have hsize : called.values = [.closureRef closure] := by
    show (m.stack.pushOf _ hroom).down = _
    rw [Stack.down_pushOf, ← values, hvalues]
  have hfunction : (called.heap.functionOf closure).arity = 0 := by
    rw [← harity]
    simp [called, made, closure, scriptOf, Heap.newClosure, Heap.functionOf, Heap.closure,
      Heap.function]
  have henter : Exec.enter closure 0 .finish called =
      .ok () { called with frames := m.frames.pushOf ⟨closure, 0, 0, .finish⟩ hframes } := by
    rw [Exec.enter, Exec.bind_of_ok (show Exec.heap called = .ok called.heap called from rfl)]
    dsimp only
    rw [if_neg (by simp [hfunction])]
    exact (Exec.bind_of_ok (Exec.calleeSlot_eq (n := 0) (by rw [hsize]; rfl))).trans
      (dif_pos hframes)
  refine ⟨{ called with frames := m.frames.pushOf ⟨closure, 0, 0, .finish⟩ hframes }, ?_, ?_⟩
  · rw [Machine.launch, Exec.launch,
      Exec.bind_of_ok (show Exec.allocate _ m = .ok closure made from rfl),
      Exec.bind_of_ok hpush, henter]
  · refine ⟨rfl, ?_, ?_, rfl, rfl, rfl, by simp, by simp [Store.slots], hglobals⟩
    · show (m.frames.pushOf _ hframes).down = _
      rw [Stack.down_pushOf, ← calls, hcalls]
    · exact hsize

end Machine

/-- The instructions behind the last statement of a script end its run. -/
theorem Script.Stands.ends {p : Script} {ip line line' : Nat} {s : Store} {m : Machine}
    (h : p.Stands [] ip [] s m) (hcode : p.Has ip [⟨.pushNil, [], line⟩, ⟨.ret, [], line'⟩]) :
    ∃ m', m.advance 2 = .finished .nil m' ∧ m'.globals = s.globals ∧ m'.sink = s.sink := by
  have hroom : (m.moveTo (ip + 1)).stack.size < stackLimit := by
    rw [(h.moveTo (ip + 1)).size_stack]
    show 0 + (0 + 1) < 256
    omega
  obtain ⟨m₁, hpush, hm₁⟩ := (h.moveTo (ip + 1)).push (v := .nil) rfl hroom
  have hfirst : Exec.step m = .ok none m₁ :=
    (h.step hcode.opcode rfl).trans (Exec.bind_of_ok hpush)
  have hread : Exec.readOpcode m₁ = .ok .ret (m₁.moveTo (ip + 2)) := by
    have hbyte := hcode.tail.opcode
    rw [← hm₁.chunkOf] at hbyte
    exact Exec.readOpcode_eq hm₁.calls hbyte
  have htop : (m₁.moveTo (ip + 2)).stack.top? = some .nil := by
    rw [Stack.top?_eq_head?, ← Machine.values, (hm₁.moveTo (ip + 2)).values]
    rfl
  have hunwind := Exec.unwind_eq_ok (hm₁.moveTo (ip + 2)).calls htop
  have hlast : Exec.step m₁ = .ok (some .nil) ((m₁.moveTo (ip + 2)).unwound 0) := by
    rw [Exec.step, Exec.bind_of_ok hread]
    show Exec.leave _ = _
    rw [Exec.leave_eq, Exec.bind_of_ok hunwind]
    rfl
  refine ⟨(m₁.moveTo (ip + 2)).unwound 0, ?_, hm₁.globals, hm₁.sink⟩
  rw [Machine.advance, hfirst]
  dsimp only
  rw [Machine.advance, hlast]

/-- A run that goes on after some steps goes on after fewer. -/
theorem Machine.exists_running_of_le {m m' : Machine} {j k : Nat} (h : m.advance k = .running m')
    (hjk : j ≤ k) : ∃ m₁, m.advance j = .running m₁ := by
  induction j generalizing m k with
  | zero => exact ⟨m, rfl⟩
  | succ j ih =>
    obtain ⟨k, rfl⟩ := Nat.exists_eq_add_of_le' (Nat.zero_lt_of_lt hjk)
    rw [advance] at h ⊢
    split at h
    · next m₁ hstep => exact ih h (Nat.le_of_succ_le_succ hjk)
    · cases h
    · cases h

/-! ## Sources and their meanings -/

/-- **A function does what a meaning says**: it returns `nil` or fails with the same error, leaves
the same global variables and writes the same output, to which a report is added if it fails.  It
goes on forever just if the meaning has no outcome. -/
structure Machine.Agrees (m : Machine) (main : FunctionId)
    (meaning : Nat → Option (Except RuntimeError Unit × Store)) : Prop where
  /-- It returns where the meaning comes to an end. -/
  returns : ∀ rounds s, meaning rounds = some (.ok (), s) →
    ∃ steps m', m.run steps main = some (.ok .nil, m') ∧ m'.globals = s.globals ∧ m'.sink = s.sink
  /-- It fails where the meaning fails. -/
  fails : ∀ rounds e s, meaning rounds = some (.error e, s) →
    ∃ (steps : Nat) (last : Machine),
      m.run steps main = some (.error (.runtime e), last.abandon (.runtime e)) ∧
        last.globals = s.globals ∧ last.sink = s.sink
  /-- It has no end if the meaning has none. -/
  diverges : (∀ rounds, meaning rounds = none) ↔ ∀ steps, m.run steps main = none

/-- A function runs out of room: all slots of the stack are in use, and one more value is to be
kept. -/
def Machine.Exhausts (m : Machine) (main : FunctionId) : Prop :=
  ∃ steps last, (m.launch main).advance steps = .failed (.runtime .stackOverflow) last ∧
    last.stack.size = stackLimit

/-- What is started does what a meaning says, if each outcome in time is met. -/
theorem Machine.agrees_of_meets {m m₀ : Machine} {main : FunctionId} {p : Script} {ip slots : Nat}
    {line line' : Nat} {meaning : Nat → Option (Except RuntimeError Unit × Store)}
    (hlaunch : m.launch main = .running m₀)
    (hcode : p.Has ip [⟨.pushNil, [], line⟩, ⟨.ret, [], line'⟩])
    (hmeets : ∀ n, m₀.Meets n slots (meaning n) fun _ s m' => p.Stands [] ip [] s m')
    (hroom : ¬(stackLimit < slots ∧ m.Exhausts main)) : m.Agrees main meaning := by
  have hrun : ∀ steps, m.run steps main = (m₀.advance steps).outcome? := by
    intro steps
    rw [run, hlaunch]
    rfl
  -- The stack is not exhausted, so each number of rounds is answered by the machine.
  have houtcome := fun n => (hmeets n).resolve_left fun ⟨hslots, steps, last, hfails, hfull⟩ =>
    hroom ⟨hslots, steps, last, by rw [hlaunch]; exact hfails, hfull⟩
  have hreturns : ∀ rounds s, meaning rounds = some (.ok (), s) → ∃ steps m',
      m.run steps main = some (.ok .nil, m') ∧ m'.globals = s.globals ∧ m'.sink = s.sink := by
    intro rounds s hmeaning
    have hout := houtcome rounds
    rw [hmeaning] at hout
    obtain ⟨k, m₁, hk, hstands⟩ := hout
    obtain ⟨m₂, hend, hglobals, hsink⟩ := hstands.ends hcode
    refine ⟨k + 2, m₂, ?_, hglobals, hsink⟩
    rw [hrun, advance_add hk, hend]
    rfl
  have hfails : ∀ rounds e s, meaning rounds = some (.error e, s) →
      ∃ (steps : Nat) (last : Machine),
        m.run steps main = some (.error (.runtime e), last.abandon (.runtime e)) ∧
        last.globals = s.globals ∧ last.sink = s.sink := by
    intro rounds e s hmeaning
    have hout := houtcome rounds
    rw [hmeaning] at hout
    obtain ⟨k, m₁, hk, hglobals, hsink⟩ := hout
    refine ⟨k, m₁, ?_, hglobals, hsink⟩
    rw [hrun, hk]
    rfl
  refine ⟨hreturns, hfails, fun hnone steps => ?_, fun hnone rounds => ?_⟩
  · -- Without an outcome in `steps` rounds the machine makes at least as many steps.
    have hout := houtcome steps
    rw [hnone steps] at hout
    obtain ⟨k, m₁, hle, hk⟩ := hout
    obtain ⟨m₂, hsteps⟩ := exists_running_of_le hk hle
    rw [hrun, hsteps]
    rfl
  · -- An outcome of the meaning would be one of the machine.
    cases hmeaning : meaning rounds with
    | none => rfl
    | some outcome =>
      obtain ⟨_ | _, s⟩ := outcome
      · obtain ⟨steps, last, hsteps, -⟩ := hfails rounds _ s hmeaning
        exact absurd (hnone steps) (by simp [hsteps])
      · obtain ⟨steps, last, hsteps, -⟩ := hreturns rounds s hmeaning
        exact absurd (hnone steps) (by simp [hsteps])

/-- What is read of a source that compiles: its tokens spell its declarations. -/
theorem Program.exists_clean_buildAll {functions : Array Function} {source : String}
    {program : Program} {ds : List Decl} (h : Program.compileAfter functions source = .ok program)
    (hds : SpellsProgram (tokens source) ds) :
    ∃ b, Clean (Decl.buildAll ds) (Builder.start functions source (scan source)) () b ∧
      Clean Build.emitReturn b () (Builder.complete functions source) ∧ Decl.LegalProgram ds := by
  obtain ⟨hclean, -⟩ := Builder.clean_of_finish h
  obtain ⟨_, b, hdeclarations, hreturn⟩ := hclean.bind
  obtain ⟨ds', ts', last', hscan, -, -⟩ := spells_of_clean hdeclarations
  obtain ⟨ts, last, htokens, hlast, hderives⟩ := hds
  rw [← tokens_of_scan hscan, htokens] at hscan
  have hdepth := length_lt_of_scan hscan
  have hreads : (Builder.start functions source (scan source)).Reads (ts ++ [last]) := hscan
  have hbuild := ((parses_declarations hderives hlast hdepth).runs _ hreads () b).1 hdeclarations
  exact ⟨b, hbuild, hreturn,
    (clean_declarations_iff hscan hlast hderives hdepth).1 ⟨b, hdeclarations⟩⟩

/-- A builder at the start of a source is at a place of a script. -/
theorem drafted_start (functions : Array Function) (source : String) (items : List ScanItem) :
    Drafted [] [] (Builder.start functions source items) where
  kind := rfl
  arity := rfl
  enclosing := rfl
  depth := rfl
  locals := rfl
  room := by
    show 1 ≤ 256
    decide
  size_constants := Nat.zero_le _
  written := fun v hv => absurd hv List.not_mem_nil

/-- At the outermost level declarations add no names of slots. -/
theorem Decl.namesAfterAll_nil (ds : List Decl) : Decl.namesAfterAll [] ds = [] := by
  induction ds with
  | nil => rfl
  | cons d ds ih =>
    have hd : d.namesAfter [] = [] := by
      rw [Decl.namesAfter]
      cases d.name? <;> rfl
    rw [Decl.namesAfterAll, List.foldl_cons, hd]
    exact ih

/-- **The compiled script of an imperative source performs its declarations**, and then returns. -/
theorem Program.exists_performs {functions : Array Function} {source : String} {program : Program}
    {ds : List Decl} {display : Value → String} {act : Nat → Eval Unit}
    (h : Program.compileAfter functions source = .ok program)
    (hds : SpellsProgram (tokens source) ds) (hact : Decl.evalAll? display ds = some act) :
    ∃ (chunk : Chunk) (code : Code) (line : Nat),
      (program.functions.getD program.main.index default).chunk = chunk ∧
      (program.functions.getD program.main.index default).arity = 0 ∧
      chunk.code.toList = Code.bytes (code ++ [⟨.pushNil, [], line⟩, ⟨.ret, [], line⟩]) ∧
      Performs chunk.constants.toList display [] [] code (Decl.heightAll 0 ds) act := by
  obtain ⟨b, hbuild, hreturn, -⟩ := Program.exists_clean_buildAll h hds
  obtain ⟨-, rfl⟩ := Builder.clean_of_finish h
  -- The tokens come from the scanner, so the names and literals in them can be read.
  have hreadable : Decl.ReadableAll ds := by
    obtain ⟨ts, last, htokens, -, hderives⟩ := hds
    refine hderives.readable fun t ht => ?_
    have hmem : t ∈ tokens source := htokens ▸ List.mem_append_left _ ht
    obtain ⟨item, hitem, htoken⟩ := List.mem_filterMap.1 hmem
    cases item with
    | error e => cases htoken
    | ok t' =>
      obtain rfl := Option.some.inj htoken
      exact Token.proper_of_mem_scan hitem
  obtain ⟨code, hdrafts, hperforms⟩ :=
    Decl.performingAll [] ds hact hreadable (drafted_start functions source (scan source)) hbuild
  rw [Decl.namesAfterAll_nil] at hdrafts hperforms
  have hkind : b.context.function.kind ≠ .initializer := by
    rw [hdrafts.drafted.kind]
    decide
  obtain ⟨hinit, -⟩ | ⟨-, hend⟩ := hreturn.of_emitReturn
  · exact absurd hinit hkind
  · rw [← hend]
    have hlast := (hdrafts.drafted.emit .pushNil b.previous.line)
    have hall := hdrafts.trans (hlast.trans (hlast.drafted.emit .ret b.previous.line))
    refine ⟨((b.emit .pushNil b.previous.line).emit .ret b.previous.line).chunk, code,
      b.previous.line, ?_, ?_, ?_, hperforms⟩
    · simp [Builder.chunk]
    · simp [hall.drafted.arity]
    · exact hall.code.code_eq

/-- **A compiled source does what its syntax tree says**, whatever the global variables of the idle
machine are, as long as no instance is among them; or it runs out of room on the stack, which takes
variables and values in use that need more slots than there are. -/
theorem Machine.Idle.agrees {m : Machine} {source : String} {program : Program} {ds : List Decl}
    (hidle : m.Idle) (hglobals : m.globals.All (·.hasInstance = false))
    (hcompile : Program.compileAfter m.heap.functions source = .ok program)
    (hds : SpellsProgram (tokens source) ds) (himperative : Decl.areImperative ds = true) :
    ∃ act, Decl.evalAll? (·.display ((m.load program).scriptOf program.main).heap) ds = some act ∧
      (stackLimit < 1 + Decl.heightAll 0 ds ∧ (m.load program).Exhausts program.main ∨
        (m.load program).Agrees program.main fun rounds => act rounds ⟨[], m.globals, m.sink⟩) := by
  obtain ⟨_, -, -, hlegal⟩ := Program.exists_clean_buildAll hcompile hds
  obtain ⟨_, _, -, -, hderives⟩ := id hds
  obtain ⟨act, hact⟩ := hderives.meaningful
    (·.display ((m.load program).scriptOf program.main).heap) himperative _ hlegal.1
  refine ⟨act, hact, ?_⟩
  obtain ⟨chunk, code, line, hchunk, harity, hbytes, hperforms⟩ :=
    Program.exists_performs hcompile hds hact
  have hloaded : (m.load program).Idle := { hidle with }
  obtain ⟨m₀, hlaunch, hstands⟩ : ∃ m₀, (m.load program).launch program.main = .running m₀ ∧
      ((m.load program).scriptOf program.main).Stands [] 0 [] ⟨[], m.globals, m.sink⟩ m₀ :=
    hloaded.starts harity hglobals
  have hscript : ((m.load program).scriptOf program.main).chunk = chunk :=
    (chunk_scriptOf _ _).trans hchunk
  have hcode : ((m.load program).scriptOf program.main).Has 0
      (code ++ [⟨.pushNil, [], line⟩, ⟨.ret, [], line⟩]) := by
    intro i byte hi
    rw [hscript, Nat.zero_add, ← Array.getElem?_toList, hbytes, hi]
  have hconstants : chunk.constants.toList <+:
      ((m.load program).scriptOf program.main).chunk.constants.toList :=
    hscript ▸ List.prefix_refl _
  -- The script stands at its code, so each number of rounds of the meaning is met by the machine.
  have hmeets := fun n => hperforms hconstants (fun _ => rfl) n hcode.left hstands
  by_cases hroom : stackLimit < 1 + Decl.heightAll 0 ds ∧ (m.load program).Exhausts program.main
  · exact .inl hroom
  · exact .inr (agrees_of_meets hlaunch hcode.right hmeets hroom)

/-- A source with a loop, which assigns a variable that is declared outside. -/
def loopingSource : String :=
  "var x = 1; while x \x7b x = nil; \x7d print x;"

/-- The tree of that source. -/
def loopingTree : List Decl :=
  [.var ⟨.identifier, "x", 4, 1⟩ (some (.literal ⟨.number, "1", 8, 1⟩)),
    .loop (.ident ⟨.identifier, "x", 17, 1⟩)
      [.expression (.assign ⟨.identifier, "x", 21, 1⟩ (.literal ⟨.nilKw, "nil", 25, 1⟩))],
    .print ⟨.printKw, "print", 32, 1⟩ (.ident ⟨.identifier, "x", 38, 1⟩)]

/-- The tokens of the looping source spell its tree. -/
theorem spells_loopingTree : SpellsProgram (tokens loopingSource) loopingTree := by
  have htokens : tokens loopingSource =
      [⟨.varKw, "var", 0, 1⟩, ⟨.identifier, "x", 4, 1⟩, ⟨.equal, "=", 6, 1⟩, ⟨.number, "1", 8, 1⟩,
        ⟨.semicolon, ";", 9, 1⟩] ++
      ([⟨.whileKw, "while", 11, 1⟩, ⟨.identifier, "x", 17, 1⟩, ⟨.leftBrace, "\x7b", 19, 1⟩,
        ⟨.identifier, "x", 21, 1⟩, ⟨.equal, "=", 23, 1⟩, ⟨.nilKw, "nil", 25, 1⟩,
        ⟨.semicolon, ";", 28, 1⟩, ⟨.rightBrace, "\x7d", 30, 1⟩] ++
      ([⟨.printKw, "print", 32, 1⟩, ⟨.identifier, "x", 38, 1⟩, ⟨.semicolon, ";", 39, 1⟩] ++ [])) ++
      [⟨.eof, "", 40, 1⟩] := by
    decide +kernel
  have hread : ∀ start, Derives (.expression .assignment (.ident ⟨.identifier, "x", start, 1⟩))
      [⟨.identifier, "x", start, 1⟩] := fun start => (Derives.ident rfl).weaken (Nat.zero_le _)
  have hvalue : ∀ token, token.kind ∈ TokenKind.literals →
      Derives (.expression .assignment (.literal token)) [token] :=
    fun token htoken => (Derives.literal htoken).weaken (Nat.zero_le _)
  have hassign : Derives (.declaration (.expression (.assign ⟨.identifier, "x", 21, 1⟩
      (.literal ⟨.nilKw, "nil", 25, 1⟩)))) ([⟨.identifier, "x", 21, 1⟩, ⟨.equal, "=", 23, 1⟩,
        ⟨.nilKw, "nil", 25, 1⟩] ++ [⟨.semicolon, ";", 28, 1⟩]) :=
    .expression (.assign rfl rfl (hvalue _ (by decide))) rfl
  exact ⟨_, _, htokens, rfl, .declarations (.varWith rfl rfl rfl (hvalue _ (by decide)) rfl)
    (.declarations (.loop rfl (hread 17) (.block rfl (.declarations hassign .noDeclarations) rfl))
      (.declarations (.print rfl (hread 38) rfl) .noDeclarations))⟩

/-- The source with a loop does what it says on a new machine. -/
theorem Machine.Idle.agrees_looping : ∃ program act,
    Program.compileAfter #[] loopingSource = .ok program ∧
      SpellsProgram (tokens loopingSource) loopingTree ∧ Decl.areImperative loopingTree = true ∧
      Decl.evalAll? (·.display (((new [] .reliable 0).load program).scriptOf program.main).heap)
        loopingTree = some act ∧
      ((new [] .reliable 0).load program).Agrees program.main fun rounds =>
        act rounds ⟨[], .empty, .reliable⟩ := by
  have hcompiles : (Program.compileAfter #[] loopingSource).isOk = true := by
    decide +kernel
  cases hcompile : Program.compileAfter #[] loopingSource with
  | error errors => simp [hcompile, Except.isOk, Except.toBool] at hcompiles
  | ok program =>
    have hidle : (new [] .reliable 0).Idle := ⟨rfl, rfl, rfl, rfl⟩
    have hglobals : (new [] .reliable 0).globals.All (·.hasInstance = false) := by
      intro name v hget
      cases hget
    obtain ⟨act, hact, hagrees⟩ := hidle.agrees hglobals hcompile spells_loopingTree rfl
    refine ⟨program, act, rfl, spells_loopingTree, rfl, hact, hagrees.resolve_left ?_⟩
    rintro ⟨hslots, -⟩
    exact absurd hslots (by decide)

end ScriptVM
