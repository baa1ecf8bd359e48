/-
# Building and the static rules

A step of building runs cleanly from a place if a rule holds there and the account has room for its
cost (`Spends`), and then the account is charged and the builder is at the next place.  Costs add up
along a sequence of steps and rules are collected (`Spends.bind`), so that the rules for a tree are
found by following its code.
-/
import ScriptVM.Proofs.Syntax.Account
import ScriptVM.Proofs.Syntax.Reading

namespace ScriptVM

/-! ## Where a builder is -/

/-- A builder is at a place, behind a number of bytes, and its functions are as an account says. -/
structure Located (site : Site) (size : Nat) (a : Account) (b : Builder) : Prop where
  /-- There are no complaints. -/
  errors_eq : b.errors = #[]
  /-- There are only tokens to read. -/
  tokens : ∃ ts, b.Reads ts
  /-- The classes around are as they look. -/
  classes_eq : b.classes.map (·.hasSuperclass) = site.classes
  /-- The functions around are as they look. -/
  outer_eq : a.around.map (·.site.locals) = site.outer
  /-- The number of code bytes. -/
  size_eq : a.spent.size = size
  /-- The functions hold what the account says. -/
  matched : Matches b.functions.size (b.context :: b.enclosing) (⟨site, a.spent⟩ :: a.around)
  /-- The locals of the functions around have their values. -/
  initialized : ∀ l ∈ a.around, l.site.initializing = none

namespace Located

variable {site site' : Site} {s : Nat} {a : Account} {b : Builder} {c : Cost}

theorem room (h : Located site s a b) : a.Room :=
  ⟨h.matched.1.within, fun l hl => h.matched.2.room l hl⟩

theorem describes (h : Located site s a b) : site.Describes b.context :=
  h.matched.1.describes

theorem chunk_size (h : Located site s a b) : b.chunk.size = s :=
  h.matched.1.size_eq.trans h.size_eq

theorem charge_eq (hc : c.captured = []) : a.charge c = ⟨a.spent + c, a.around⟩ := by
  rw [Account.charge, hc, spread_nil]

/-- The function at hand changes, and nothing else. -/
theorem withContext {context : FunctionContext} (h : Located site s a b) (hc : c.captured = [])
    (hclasses : site'.classes = site.classes) (houter : site'.outer = site.outer)
    (htallied : Tallied b.functions.size context ⟨site', a.spent + c⟩ a.around) :
    Located site' (s + c.size) (a.charge c) { b with context } := by
  rw [charge_eq hc]
  exact {
    errors_eq := h.errors_eq
    tokens := h.tokens
    classes_eq := h.classes_eq.trans hclasses.symm
    outer_eq := h.outer_eq.trans houter.symm
    size_eq := congrArg (· + c.size) h.size_eq
    matched := ⟨htallied, h.matched.2⟩
    initialized := h.initialized }

/-- The locals or the depth of the function at hand change. -/
theorem withLocals {context : FunctionContext} (h : Located site s a b)
    (hfunction : context.function = b.context.function)
    (hcaptures : context.captures = b.context.captures) (hclasses : site'.classes = site.classes)
    (houter : site'.outer = site.outer) (hdescribes : site'.Describes context)
    (hslots : site'.locals.length ≤ 256) : Located site' s a { b with context } := by
  have htallied := h.matched.1
  have hkept : Tallied b.functions.size context ⟨site', a.spent + 0⟩ a.around := {
    describes := hdescribes
    slots := hslots
    size_eq := by
      rw [hfunction, Cost.add_zero]
      exact htallied.size_eq
    arity_eq := by
      rw [hfunction, Cost.add_zero]
      exact htallied.arity_eq
    pool := by
      rw [hfunction, Cost.add_zero]
      exact htallied.pool
    captures := by
      rw [hcaptures, Cost.add_zero]
      exact htallied.captures
    within := by
      rw [Cost.add_zero]
      exact htallied.within }
  have hat := h.withContext rfl hclasses houter hkept
  rwa [Account.charge_zero] at hat

/-- A part that captures nothing only needs room for its constants. -/
theorem within_add (h : Located site s a b) (hc : c.captured = []) (hparameters : c.parameters = 0)
    (hcount : (a.spent + c).constantCount ≤ 256) : (a.spent + c).Within where
  constants := hcount
  captured := by
    rw [Cost.captureCount, Cost.captured_add, hc, List.append_nil]
    exact h.room.here.captured
  parameters := by
    rw [Cost.parameters_add, hparameters]
    exact h.room.here.parameters

/-- The code of the function at hand changes. -/
theorem withChunk {chunk : Chunk} (h : Located site s a b) (hc : c.captured = [])
    (hparameters : c.parameters = 0) (hsize : chunk.size = b.chunk.size + c.size)
    (hpool : Pool b.functions.size chunk.constants (a.spent + c))
    (hcount : (a.spent + c).constantCount ≤ 256) :
    Located site (s + c.size) (a.charge c) (b.withChunk chunk) := by
  have htallied := h.matched.1
  refine h.withContext hc rfl rfl {
    htallied with
    describes := { htallied.describes with }
    size_eq := ?_
    arity_eq := ?_
    pool := hpool
    captures := ?_
    within := h.within_add hc hparameters hcount }
  · rw [hsize, h.matched.1.size_eq]
    rfl
  · rw [Cost.parameters_add, hparameters]
    exact htallied.arity_eq
  · rw [Cost.captured_add, hc, List.append_nil]
    exact htallied.captures

/-- Code is appended or patched. -/
theorem emit {chunk : Chunk} {n : Nat} (h : Located site s a b)
    (hsize : chunk.size = b.chunk.size + n)
    (hconstants : chunk.constants = b.chunk.constants) :
    Located site (s + n) (a.charge (.bytes n)) (b.withChunk chunk) := by
  have hspent : (a.spent + Cost.bytes n).constants = a.spent.constants := List.append_nil _
  refine h.withChunk (c := .bytes n) rfl rfl hsize ?_ ?_
  · rw [hconstants]
    exact h.matched.1.pool.congr hspent rfl
  · rw [Cost.constantCount, hspent]
    exact h.room.here.constants

/-- Opcodes are appended. -/
theorem emitAll {γ : Type} (h : Located site s a b) (xs : List γ) (op : γ → Opcode) (line : Nat) :
    ∃ b', (xs.forM fun x => Build.emitAt (op x) line : Build PUnit) b = .ok () b' ∧
      Located site (s + xs.length) (a.charge (.bytes xs.length)) b' := by
  induction xs generalizing s a b with
  | nil =>
    refine ⟨b, rfl, ?_⟩
    have hzero : Cost.bytes 0 = 0 := rfl
    rwa [List.length_nil, hzero, Account.charge_zero]
  | cons x xs ih =>
    have hemit : Located site (s + 1) (a.charge (.bytes 1))
        (b.withChunk (b.chunk.addOpcode (op x) line)) :=
      h.emit (Chunk.size_addByte _ _ _) rfl
    obtain ⟨b', hrun, hat⟩ := ih hemit
    refine ⟨b', hrun, ?_⟩
    rw [Account.charge_charge, Cost.bytes_add_bytes, Nat.add_assoc] at hat
    rwa [List.length_cons, Nat.add_comm xs.length]

end Located

namespace Build

variable {α β : Type} {site site₁ site₂ : Site} {s : Nat} {c d : Cost} {P P' : Prop}

/-- **From a place, a step runs cleanly if a rule holds and there is room for its cost**; then the
cost is charged, and the builder is at the next place. -/
structure Spends (site : Site) (s : Nat) (x : Build α) (c : Cost) (P : Prop) (site' : Site)
    (Q : α → Prop := fun _ => True) : Prop where
  /-- A clean run keeps the rule and is charged. -/
  sound : ∀ a b, Located site s a b → ∀ r b', Clean x b r b' →
    P ∧ Q r ∧ Located site' (s + c.size) (a.charge c) b'
  /-- If the rule holds and there is room, there is a clean run. -/
  complete : ∀ a b, Located site s a b → P → (a.charge c).Room → ∃ r b', Clean x b r b'

namespace Spends

variable {x : Build α} {f : α → Build β} {Q : α → Prop} {R : β → Prop}

/-- A step spends what it costs if each of its runs either succeeds and pays, or breaks the rule or
a limit. -/
theorem of_cases (h : ∀ a b, Located site s a b →
    (∃ r b', Clean x b r b' ∧ P ∧ Q r ∧ Located site₁ (s + c.size) (a.charge c) b') ∨
      (∀ r b', ¬ Clean x b r b') ∧ ¬ (P ∧ (a.charge c).Room)) : Spends site s x c P site₁ Q where
  sound a b hb r b' hclean := by
    rcases h a b hb with ⟨r₁, b₁, hclean₁, hP, hQ, hat⟩ | ⟨hnot, -⟩
    · obtain ⟨rfl, rfl⟩ : r₁ = r ∧ b₁ = b' := by
        have hrun := hclean₁.1.symm.trans hclean.1
        injection hrun with hr hb
        exact ⟨hr, hb⟩
      exact ⟨hP, hQ, hat⟩
    · exact absurd hclean (hnot r b')
  complete a b hb hP hroom := by
    rcases h a b hb with ⟨r, b', hclean, -⟩ | ⟨-, hnot⟩
    · exact ⟨r, b', hclean⟩
    · exact absurd ⟨hP, hroom⟩ hnot

/-- A step that always runs. -/
theorem of_run (h : ∀ a b, Located site s a b →
    ∃ r b', x b = .ok r b' ∧ Q r ∧ Located site₁ (s + c.size) (a.charge c) b') :
    Spends site s x c True site₁ Q := by
  refine of_cases fun a b hb => .inl ?_
  obtain ⟨r, b', hrun, hQ, hat⟩ := h a b hb
  exact ⟨r, b', ⟨hrun, hat.errors_eq⟩, trivial, hQ, hat⟩

/-- A step that changes nothing. -/
theorem of_stay (h : ∀ a b, Located site s a b →
    ∃ r b', x b = .ok r b' ∧ Q r ∧ Located site₁ s a b') : Spends site s x 0 True site₁ Q := by
  refine of_run fun a b hb => ?_
  rw [Account.charge_zero]
  exact h a b hb

/-- **Costs add up and rules are collected.** -/
theorem bind [∀ r, Cumulative (f r)] (hx : Spends site s x c P site₁ Q)
    (hf : ∀ r, Q r → Spends site₁ (s + c.size) (f r) d P' site₂ R) :
    Spends site s (x >>= f) (c + d) (P ∧ P') site₂ R where
  sound a b hb r b' hclean := by
    obtain ⟨r₁, b₁, hclean₁, hclean₂⟩ := hclean.bind
    obtain ⟨hP, hQ, hat₁⟩ := hx.sound a b hb r₁ b₁ hclean₁
    obtain ⟨hP', hR, hat₂⟩ := (hf r₁ hQ).sound _ b₁ hat₁ r b' hclean₂
    rw [Account.charge_charge, Nat.add_assoc] at hat₂
    exact ⟨⟨hP, hP'⟩, hR, hat₂⟩
  complete a b hb hP hroom := by
    rw [← Account.charge_charge] at hroom
    obtain ⟨r₁, b₁, hclean₁⟩ := hx.complete a b hb hP.1 hroom.of_charge
    obtain ⟨-, hQ, hat₁⟩ := hx.sound a b hb r₁ b₁ hclean₁
    obtain ⟨r, b', hclean₂⟩ := (hf r₁ hQ).complete _ b₁ hat₁ hP.2 hroom
    exact ⟨r, b', hclean₁.then hclean₂⟩

/-- What a step spends may be written in other ways. -/
theorem congr (h : Spends site s x c P site₁ Q) (hc : c = d) (hP : P ↔ P') :
    Spends site s x d P' site₁ Q := by
  obtain rfl := hc
  obtain rfl := propext hP
  exact h

/-- A step may look at the builder first. -/
theorem get {f : Builder → Build β}
    (hf : ∀ a b, Located site s a b → Spends site s (f b) c P site₁ R) :
    Spends site s (get >>= f) c P site₁ R where
  sound a b hb := (hf a b hb).sound a b hb
  complete a b hb := (hf a b hb).complete a b hb

/-! ## Tokens and code -/

theorem done : Spends site s (pure () : Build Unit) 0 True site :=
  of_stay fun _ b hb => ⟨(), b, rfl, trivial, hb⟩

/-- Skipping a token is free. -/
theorem pass : Spends site s pass 0 True site := by
  refine of_stay fun a b hb => ?_
  obtain ⟨ts, hts⟩ := hb.tokens
  have hrun : Build.pass b = .ok () b.take := by
    cases ts with
    | nil =>
      have hpeek : peek b = .ok b.next b := by
        have hpending : b.pending = [] := hts
        rw [peek, hpending, settle, Builder.next, hpending, ← hpending]
        intro e rest hcons
        simp at hcons
      rw [Build.pass, advance, bind_assoc, bind_of_ok hpeek]
      rfl
    | cons t us => exact pass_of_reads hts
  refine ⟨(), b.take, hrun, trivial, { hb with tokens := ?_ }⟩
  rw [Builder.take]
  split
  · exact ⟨ts, hts⟩
  · exact ⟨ts.tail, (congrArg List.tail hts).trans (List.map_tail ..).symm⟩

/-- Dividing the cases by a token is free. -/
theorem divide {γ : Type} (rest : List γ) : Spends site s (divide rest) 0 True site := by
  unfold Build.divide
  split
  · exact done
  · exact pass

theorem previousLine : Spends site s previousLine 0 True site :=
  of_stay fun _ b hb => ⟨_, b, rfl, trivial, hb⟩

theorem codeSize : Spends site s codeSize 0 True site (· = s) :=
  of_stay fun _ b hb => ⟨_, b, rfl, hb.chunk_size, hb⟩

/-- Appending bytes costs the bytes. -/
theorem modifyChunk {f : Chunk → Chunk} {n : Nat} (hsize : ∀ chunk, (f chunk).size = chunk.size + n)
    (hconstants : ∀ chunk, (f chunk).constants = chunk.constants) :
    Spends site s (modifyChunk f) (.bytes n) True site :=
  of_run fun _ b hb => ⟨(), b.withChunk (f b.chunk), rfl, trivial,
    hb.emit (hsize _) (hconstants _)⟩

theorem emitAt (op : Opcode) (line : Nat) : Spends site s (emitAt op line) (.bytes 1) True site :=
  modifyChunk (fun _ => Chunk.size_addByte _ _ _) fun _ => rfl

theorem emitWithAt (op : Opcode) (operand : UInt8) (line : Nat) :
    Spends site s (emitWithAt op operand line) (.bytes 2) True site :=
  modifyChunk (fun _ => by simp [Chunk.addInstruction, Chunk.addOpcode]) fun _ => rfl

theorem emitByteAt (byte : UInt8) (line : Nat) :
    Spends site s (emitByteAt byte line) (.bytes 1) True site :=
  modifyChunk (fun _ => Chunk.size_addByte _ _ _) fun _ => rfl

theorem emit (op : Opcode) : Spends site s (emit op) (.bytes 1) True site := by
  unfold Build.emit
  exact (previousLine.bind fun line _ => emitAt op line).congr (by simp) (by simp)

/-- A jump costs three bytes, and is placed where the code ended. -/
theorem emitJump (op : Opcode) (line : Nat) :
    Spends site s (emitJump op line) (.bytes 3) True site (· = s) := by
  refine of_run fun _ b hb => ⟨b.chunk.size, b.withChunk (b.chunk.addJump op line), rfl,
    hb.chunk_size, hb.emit (n := 3) ?_ rfl⟩
  simp [Chunk.addJump, Chunk.addOpcode]

/-- The opcodes of an operator. -/
theorem emitAll (ops : List Opcode) (line : Nat) :
    Spends site s (ops.forM fun op => Build.emitAt op line) (.bytes ops.length) True site := by
  refine of_run fun a b hb => ?_
  obtain ⟨b', hrun, hat⟩ := hb.emitAll ops id line
  exact ⟨(), b', hrun, trivial, hat⟩

/-! ## Jumps -/

/-- Patching a jump is free, if its distance fits into two bytes. -/
theorem patchJump (offset : Nat) :
    Spends site s (patchJump offset) 0 (offset + 3 ≤ s ∧ s - (offset + 3) ≤ 65535) site := by
  refine of_cases fun a b hb => ?_
  have hpatch : ∀ chunk, b.chunk.patchJump offset = .ok chunk →
      Clean (Build.patchJump offset) b () (b.withChunk chunk) := by
    intro chunk hchunk
    refine ⟨?_, hb.errors_eq⟩
    rw [Build.patchJump, bind_of_ok (x := (MonadState.get : Build Builder)) rfl, hchunk]
    rfl
  have hsize := hb.chunk_size
  by_cases hjump : offset + 3 ≤ s ∧ s - (offset + 3) ≤ 65535
  · left
    have hok : ∃ code, b.chunk.patchJump offset = .ok { b.chunk with code } ∧
        code.size = b.chunk.code.size := by
      rw [Chunk.patchJump, if_neg, if_pos]
      · exact ⟨_, rfl, by simp⟩
      · rw [hsize]
        exact hjump.2
      · rw [hsize]
        exact Nat.not_lt.2 hjump.1
    obtain ⟨code, hchunk, hcode⟩ := hok
    refine ⟨(), _, hpatch _ hchunk, hjump, trivial, ?_⟩
    exact hb.emit (n := 0) hcode rfl
  · right
    refine ⟨fun r b' hclean => hjump ?_, fun hP => hjump hP.1⟩
    obtain ⟨chunk, hchunk, -⟩ := hclean.of_patchJump
    rw [Chunk.patchJump] at hchunk
    split at hchunk
    · simp at hchunk
    · next hoffset =>
      dsimp only at hchunk
      split at hchunk
      · next hdistance =>
        rw [hsize] at hoffset hdistance
        exact ⟨Nat.le_of_not_lt hoffset, hdistance⟩
      · simp at hchunk

/-- A loop costs three bytes, and its distance has to fit into two. -/
theorem emitLoop (start line : Nat) :
    Spends site s (emitLoop start line) (.bytes 3)
      (start ≤ s + 3 ∧ s + 3 - start ≤ 65535) site := by
  refine of_cases fun a b hb => ?_
  have hsize := hb.chunk_size
  by_cases hloop : start ≤ s + 3 ∧ s + 3 - start ≤ 65535
  · left
    have hok : ∃ chunk, b.chunk.addLoop start line = .ok chunk ∧
        chunk.size = b.chunk.size + 3 ∧ chunk.constants = b.chunk.constants := by
      have hdistance : start ≤ b.chunk.size + Chunk.jumpLength ∧
          b.chunk.size + Chunk.jumpLength - start ≤ Chunk.distanceLimit := by
        rw [hsize]
        exact hloop
      rw [Chunk.addLoop]
      dsimp only
      rw [if_pos hdistance]
      exact ⟨_, rfl, by simp [Chunk.addOpcode], rfl⟩
    obtain ⟨chunk, hchunk, hchunkSize, hconstants⟩ := hok
    refine ⟨(), b.withChunk chunk, ⟨?_, hb.errors_eq⟩, hloop, trivial, ?_⟩
    · rw [Build.emitLoop, bind_of_ok (x := (MonadState.get : Build Builder)) rfl, hchunk]
      rfl
    · exact hb.emit hchunkSize hconstants
  · right
    refine ⟨fun r b' hclean => hloop ?_, fun hP => hloop hP.1⟩
    obtain ⟨chunk, hchunk, -⟩ := hclean.of_emitLoop
    rw [Chunk.addLoop] at hchunk
    dsimp only at hchunk
    split at hchunk
    · next hdistance =>
      rw [hsize] at hdistance
      exact hdistance
    · simp at hchunk

end Spends

end Build

end ScriptVM
