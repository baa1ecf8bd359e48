/-
# What the small steps do

A clean run of a small step has exactly one outcome, which is stated here: the token that is read
and the builder behind it (`next`, `take`), the code that is appended, the variables that are
declared.  The larger phrases are sequences of these.
-/
import ScriptVM.Proofs.Program.Complaints

namespace ScriptVM

namespace Builder

/-- The next token. -/
def next (b : Builder) : Token :=
  Build.firstToken b.source b.previous b.pending

/-- The builder behind the next token; the end token stays. -/
def take (b : Builder) : Builder :=
  { b with
    pending := if b.next.kind = .eof then b.pending else b.pending.tail
    previous := b.next }

/-- The code of the function at hand. -/
abbrev chunk (b : Builder) : Chunk :=
  b.context.function.chunk

/-- The builder with other code for the function at hand. -/
def withChunk (b : Builder) (chunk : Chunk) : Builder :=
  { b with context := { b.context with function := { b.context.function with chunk } } }

/-- The builder with an opcode appended. -/
def emit (b : Builder) (op : Opcode) (line : Nat) : Builder :=
  b.withChunk (b.chunk.addOpcode op line)

/-- The builder with an opcode and an operand appended. -/
def emitWith (b : Builder) (op : Opcode) (operand : UInt8) (line : Nat) : Builder :=
  b.withChunk (b.chunk.addInstruction op operand line)

/-- The builder with a byte appended. -/
def emitByte (b : Builder) (byte : UInt8) (line : Nat) : Builder :=
  b.withChunk (b.chunk.addByte byte line)

/-- The builder with a jump appended. -/
def emitJump (b : Builder) (op : Opcode) (line : Nat) : Builder :=
  b.withChunk (b.chunk.addJump op line)

/-- The builder with other locals of the function at hand. -/
def withLocals (b : Builder) (locals : List Local) : Builder :=
  { b with context := { b.context with locals } }

/-- The builder at another depth. -/
def withDepth (b : Builder) (depth : Nat) : Builder :=
  { b with context := { b.context with depth } }

end Builder

/-- The function that a context ends with. -/
def FunctionContext.complete (c : FunctionContext) : Function :=
  { c.function with captureCount := c.captures.size }

namespace Build.Clean

variable {b b' : Builder} {u : Unit} {token : Token} {r : Bool}

/-! ## Tokens -/

/-- What is settled without complaints has reported none. -/
theorem settle_errors {source : String} {errors : Array CompileError} {items : List ScanItem}
    (h : (settle source errors items).1 = #[]) :
      (settle source errors items) = (errors, items) := by
  cases items with
  | nil => rfl
  | cons item rest =>
    cases item with
    | ok token => rfl
    | error e =>
      have hle := size_le_settle source (errors.push (scanErrorAt source e)) rest
      rw [settle] at h
      rw [h] at hle
      simp at hle

/-- Looking at the token at hand gives that token. -/
theorem of_peek (h : Clean peek b token b') : b.next = token ∧ b = b' := by
  obtain ⟨hrun, herrors⟩ := h
  change EStateM.Result.ok _ { b with
    errors := (settle b.source b.errors b.pending).1
    pending := (settle b.source b.errors b.pending).2 } = .ok token b' at hrun
  injection hrun with htoken hb
  have hsettle : (settle b.source b.errors b.pending).1 = #[] := by
    rw [← hb] at herrors
    exact herrors
  rw [settle_errors hsettle] at htoken hb
  exact ⟨htoken, hb⟩

/-- Taking a token gives the one at hand. -/
theorem of_advance (h : Clean advance b token b') : b.next = token ∧ b.take = b' := by
  unfold advance at h
  obtain ⟨_, _, hpeek, h⟩ := h.bind_of_cumulative fun _ =>
    cumulative_bind (cumulative_modify fun _ => rfl) fun _ => inferInstance
  obtain ⟨rfl, rfl⟩ := of_peek hpeek
  exact of_pure h.bind_modify

/-- Checking the token at hand tells its kind. -/
theorem of_check {kind : TokenKind} (h : Clean (check kind) b r b') :
    decide (b.next.kind = kind) = r ∧ b = b' := by
  unfold check at h
  obtain ⟨_, _, hpeek, h⟩ := h.bind
  obtain ⟨rfl, rfl⟩ := of_peek hpeek
  obtain ⟨rfl, rfl⟩ := of_pure h
  exact ⟨rfl, rfl⟩

/-- A list or block ends at its closing token, or at the end of the source. -/
theorem of_atEnd {kind : TokenKind} (h : Clean (atEnd kind) b r b') :
    (b.next.kind = kind || b.next.kind = .eof) = r ∧ b = b' := by
  unfold atEnd at h
  obtain ⟨_, _, hpeek, h⟩ := h.bind
  obtain ⟨rfl, rfl⟩ := of_peek hpeek
  obtain ⟨rfl, rfl⟩ := of_pure h
  exact ⟨rfl, rfl⟩

/-- A token is accepted just if it is of the kind. -/
theorem of_accept {kind : TokenKind} (h : Clean (accept kind) b r b') :
    (r = true ∧ b.next.kind = kind ∧ b.take = b') ∨ (r = false ∧ b.next.kind ≠ kind ∧ b = b') := by
  unfold accept at h
  obtain ⟨_, _, hcheck, h⟩ := h.bind
  obtain ⟨rfl, rfl⟩ := of_check hcheck
  split at h
  · next hkind =>
    obtain ⟨_, _, hadvance, h⟩ := h.bind
    obtain ⟨-, rfl⟩ := of_advance hadvance
    obtain ⟨rfl, rfl⟩ := of_pure h
    exact .inl ⟨rfl, of_decide_eq_true hkind, rfl⟩
  · next hkind =>
    obtain ⟨rfl, rfl⟩ := of_pure h
    exact .inr ⟨rfl, by simpa using hkind, rfl⟩

/-- An equals sign is accepted just if it is allowed and at hand. -/
theorem of_acceptAssignment {canAssign : Bool} (h : Clean (acceptAssignment canAssign) b r b') :
    (r = true ∧ canAssign = true ∧ b.next.kind = .equal ∧ b.take = b') ∨
      (r = false ∧ (canAssign = true → b.next.kind ≠ .equal) ∧ b = b') := by
  unfold acceptAssignment at h
  split at h
  · next hassign =>
    rcases of_accept h with ⟨hr, hkind, hb⟩ | ⟨hr, hkind, hb⟩
    · exact .inl ⟨hr, hassign, hkind, hb⟩
    · exact .inr ⟨hr, fun _ => hkind, hb⟩
  · next hassign =>
    obtain ⟨rfl, rfl⟩ := of_pure h
    exact .inr ⟨rfl, fun h => absurd h hassign, rfl⟩

/-- A token that is expected is at hand, and taken. -/
theorem of_expect {what : Expectation} (h : Clean (expect what) b token b') :
    b.next.kind = what.kind ∧ b.next = token ∧ b.take = b' := by
  unfold expect at h
  obtain ⟨_, _, hpeek, h⟩ := h.bind
  obtain ⟨rfl, rfl⟩ := of_peek hpeek
  split at h
  · next hkind =>
    exact ⟨hkind, of_advance h⟩
  · exact absurd h not_fail

/-! ## Code -/

theorem of_previousLine {line : Nat} (h : Clean previousLine b line b') :
    b.previous.line = line ∧ b = b' := by
  unfold previousLine at h
  exact of_pure h.bind_get

theorem of_codeSize {size : Nat} (h : Clean codeSize b size b') : b.chunk.size = size ∧ b = b' := by
  unfold codeSize at h
  exact of_pure h.bind_get

theorem of_modifyContext {f : FunctionContext → FunctionContext}
    (h : Clean (modifyContext f) b u b') : { b with context := f b.context } = b' :=
  of_modify h

theorem of_modifyChunk {f : Chunk → Chunk} (h : Clean (modifyChunk f) b u b') :
    b.withChunk (f b.chunk) = b' :=
  of_modify h

theorem of_emitAt {op : Opcode} {line : Nat} (h : Clean (emitAt op line) b u b') :
    b.emit op line = b' :=
  of_modifyChunk h

/-- An instruction is emitted on the line of the token before. -/
theorem of_emit {op : Opcode} (h : Clean (Build.emit op) b u b') :
    b.emit op b.previous.line = b' := by
  unfold Build.emit at h
  obtain ⟨_, _, hline, h⟩ := h.bind
  obtain ⟨rfl, rfl⟩ := of_previousLine hline
  exact of_emitAt h

theorem of_emitWithAt {op : Opcode} {operand : UInt8} {line : Nat}
    (h : Clean (emitWithAt op operand line) b u b') : b.emitWith op operand line = b' :=
  of_modifyChunk h

theorem of_emitByteAt {byte : UInt8} {line : Nat} (h : Clean (emitByteAt byte line) b u b') :
    b.emitByte byte line = b' :=
  of_modifyChunk h

/-- A jump is emitted with its place as the result. -/
theorem of_emitJump {op : Opcode} {line offset : Nat}
    (h : Clean (Build.emitJump op line) b offset b') :
    b.chunk.size = offset ∧ b.emitJump op line = b' := by
  unfold Build.emitJump at h
  obtain ⟨_, _, hsize, h⟩ := h.bind
  obtain ⟨rfl, rfl⟩ := of_codeSize hsize
  obtain ⟨_, _, hchunk, h⟩ := h.bind
  obtain ⟨rfl, rfl⟩ := of_pure h
  exact ⟨rfl, of_modifyChunk hchunk⟩

/-- A chunk is set if it could be made. -/
theorem of_setChunk {outcome : Except JumpError Chunk} (h : Clean (setChunk outcome) b u b') :
    ∃ chunk, outcome = .ok chunk ∧ b.withChunk chunk = b' := by
  cases outcome with
  | ok chunk => exact ⟨chunk, rfl, of_modify h⟩
  | error e =>
    unfold setChunk at h
    obtain ⟨_, _, _, h⟩ := h.bind
    exact absurd h not_fail

theorem of_patchJump {offset : Nat} (h : Clean (Build.patchJump offset) b u b') :
    ∃ chunk, b.chunk.patchJump offset = .ok chunk ∧ b.withChunk chunk = b' := by
  unfold Build.patchJump at h
  exact of_setChunk h.bind_get

theorem of_emitLoop {start line : Nat} (h : Clean (emitLoop start line) b u b') :
    ∃ chunk, b.chunk.addLoop start line = .ok chunk ∧ b.withChunk chunk = b' := by
  unfold emitLoop at h
  exact of_setChunk h.bind_get

/-- A constant that is found or added has an index. -/
theorem of_constantAt {value : Value} {index : UInt8}
    (h : Clean (constantAt token value) b index b') :
    ∃ chunk, b.chunk.addConstant value = (some index, chunk) ∧ b.withChunk chunk = b' := by
  unfold constantAt at h
  have h := h.bind_get.bind_modify
  split at h
  · next i hi =>
    obtain ⟨rfl, rfl⟩ := of_pure h
    exact ⟨_, Prod.ext hi rfl, rfl⟩
  · exact absurd h not_fail

theorem of_constant {value : Value} {index : UInt8} (h : Clean (constant value) b index b') :
    ∃ chunk, b.chunk.addConstant value = (some index, chunk) ∧ b.withChunk chunk = b' := by
  unfold constant at h
  exact of_constantAt h.bind_get

theorem of_nameConstant {index : UInt8} (h : Clean (nameConstant token) b index b') :
    ∃ chunk, b.chunk.addConstant (.string token.lexeme) = (some index, chunk) ∧
      b.withChunk chunk = b' :=
  of_constantAt h

/-- An initializer returns what is in slot 0, and any other function returns `nil`. -/
theorem of_emitReturn (h : Clean emitReturn b u b') :
    (b.context.function.kind = .initializer ∧
        (b.emitWith .getLocal 0 b.previous.line).emit .ret b.previous.line = b') ∨
      (b.context.function.kind ≠ .initializer ∧
        (b.emit .pushNil b.previous.line).emit .ret b.previous.line = b') := by
  unfold emitReturn at h
  obtain ⟨_, _, hline, h⟩ := h.bind
  obtain ⟨rfl, rfl⟩ := of_previousLine hline
  replace h := h.bind_get
  dsimp only at h
  split at h
  · next hkind =>
    obtain ⟨_, _, hemit, h⟩ := h.bind
    obtain rfl := of_emitWithAt hemit
    exact .inl ⟨hkind, of_emitAt h⟩
  · next hkind =>
    obtain ⟨_, _, hemit, h⟩ := h.bind
    obtain rfl := of_emitAt hemit
    exact .inr ⟨hkind, of_emitAt h⟩

/-! ## Variables -/

/-- A local that is added is on top of the others, and is not one too many. -/
theorem of_addLocal {name : String} (h : Clean (Build.addLocal name token) b u b') :
    b.context.locals.length < FunctionContext.localLimit ∧
      b.withLocals (⟨name, b.context.depth, false, false⟩ :: b.context.locals) = b' := by
  unfold Build.addLocal at h
  obtain ⟨context, hadd, h⟩ := h.bind_get.bind_orFailAt
  rw [FunctionContext.addLocal] at hadd
  split at hadd
  · next hroom =>
    obtain rfl := Except.ok.inj hadd
    exact ⟨hroom, of_modifyContext h⟩
  · simp at hadd

/-- A variable is declared as a local, unless it is at the outermost level. -/
theorem of_declareVariable (h : Clean (declareVariable token) b u b') :
    (b.context.depth = 0 ∧ b = b') ∨
      (b.context.depth ≠ 0 ∧ b.context.declares token.lexeme = false ∧
        b.context.locals.length < FunctionContext.localLimit ∧
        b.withLocals (⟨token.lexeme, b.context.depth, false, false⟩ :: b.context.locals) = b') := by
  unfold declareVariable at h
  replace h := h.bind_get
  dsimp only at h
  split at h
  · next hdepth =>
    split at h
    · obtain ⟨_, _, hnote, h⟩ := h.bind
      exact absurd hnote not_noteAt
    · next hdeclares =>
      obtain ⟨hroom, hb⟩ := of_addLocal h
      exact .inr ⟨hdepth, by simpa using hdeclares, hroom, hb⟩
  · next hdepth =>
    obtain ⟨-, hb⟩ := of_pure h
    exact .inl ⟨by simpa using hdepth, hb⟩

/-- A new variable is a local, or a global one whose name becomes a constant. -/
theorem of_variableName {name? : Option UInt8} (h : Clean variableName b name? b') :
    b.next.kind = .identifier ∧
      ((b.context.depth = 0 ∧ ∃ index chunk, name? = some index ∧
          b.take.chunk.addConstant (.string b.next.lexeme) = (some index, chunk) ∧
          b.take.withChunk chunk = b') ∨
        (b.context.depth ≠ 0 ∧ name? = none ∧
          b.context.locals.length < FunctionContext.localLimit ∧
          b.take.withLocals (⟨b.next.lexeme, b.context.depth, false, false⟩ :: b.context.locals)
            = b')) := by
  unfold variableName at h
  obtain ⟨name, _, hname, h⟩ := h.bind
  obtain ⟨hkind, rfl, rfl⟩ := of_expect hname
  refine ⟨hkind, ?_⟩
  obtain ⟨_, b₁, hdeclare, h⟩ := h.bind
  replace h := h.bind_get
  rcases of_declareVariable hdeclare with ⟨hdepth, rfl⟩ | ⟨hdepth, -, hroom, rfl⟩
  · rw [if_neg (by rw [hdepth]; simp)] at h
    obtain ⟨index, hconstant, rfl⟩ := h.map
    obtain ⟨chunk, hadd, rfl⟩ := of_nameConstant hconstant
    exact .inl ⟨hdepth, index, chunk, rfl, hadd, rfl⟩
  · split at h
    · obtain ⟨rfl, rfl⟩ := of_pure h
      exact .inr ⟨hdepth, rfl, hroom, rfl⟩
    · next hzero => exact absurd (Nat.pos_of_ne_zero hdepth) hzero

theorem of_markInitialized (h : Clean markInitialized b u b') :
    { b with context := b.context.markInitialized } = b' :=
  of_modifyContext h

/-- A name stands for a local, for a variable of a function around, or for a global variable. -/
theorem of_resolve {access : Access} (h : Clean (resolve token) b access b') :
    (∃ slot, b.context.resolveLocal token.lexeme = .ok (some slot) ∧
        ⟨.getLocal, .setLocal, slot⟩ = access ∧ b = b') ∨
      (b.context.resolveLocal token.lexeme = .ok none ∧
        ∃ index context enclosing,
          resolveCapture token.lexeme b.context b.enclosing =
            ⟨.ok (some index), context, enclosing⟩ ∧
            ⟨.getUpvalue, .setUpvalue, index⟩ = access ∧ { b with context, enclosing } = b') ∨
      (b.context.resolveLocal token.lexeme = .ok none ∧
        ∃ index context enclosing chunk,
          resolveCapture token.lexeme b.context b.enclosing = ⟨.ok none, context, enclosing⟩ ∧
            context.function.chunk.addConstant (.string token.lexeme) = (some index, chunk) ∧
            ⟨.getGlobal, .setGlobal, index⟩ = access ∧
            { b with context, enclosing }.withChunk chunk = b') := by
  unfold resolve at h
  obtain ⟨slot?, hlocal, h⟩ := h.bind_get.bind_orFailAt
  split at h
  · next slot =>
    obtain ⟨rfl, rfl⟩ := of_pure h
    exact .inl ⟨slot, hlocal, rfl, rfl⟩
  · obtain ⟨index?, hindex, h⟩ := h.bind_modify.bind_orFailAt
    split at h
    · next index =>
      obtain ⟨rfl, rfl⟩ := of_pure h
      exact .inr (.inl ⟨hlocal, index, _, _, by rw [← hindex], rfl, rfl⟩)
    · obtain ⟨index, _, hname, h⟩ := h.bind
      obtain ⟨chunk, hadd, rfl⟩ := of_nameConstant hname
      obtain ⟨rfl, rfl⟩ := of_pure h
      exact .inr (.inr ⟨hlocal, index, _, _, chunk, by rw [← hindex], hadd, rfl, rfl⟩)

theorem of_beginScope (h : Clean beginScope b u b') : b.withDepth (b.context.depth + 1) = b' :=
  of_modifyContext h

/-- The locals of a scope that ends are given up, and then dropped one by one. -/
theorem endScope_eq {new old : List Local} {depth : Nat}
    (hlocals : b.context.locals = new ++ old) (hdepth : b.context.depth = depth + 1)
    (hnew : ∀ l ∈ new, l.depth = depth + 1) (hold : ∀ l ∈ old, l.depth ≤ depth) :
    endScope b = (new.forM fun l => emitAt (dropOp l) b.previous.line)
      ((b.withDepth depth).withLocals old) := by
  have hold' : old.takeWhile (depth < ·.depth) = [] := by
    cases old with
    | nil => rfl
    | cons l rest =>
      have := hold l List.mem_cons_self
      simp [this]
  have hended : b.context.locals.takeWhile (b.context.depth - 1 < ·.depth) = new := by
    rw [hlocals, hdepth, List.takeWhile_append_of_pos, Nat.add_sub_cancel, hold', List.append_nil]
    intro l hl
    simp [hnew l hl]
  have hrun : endScope b =
      ((b.context.locals.takeWhile (b.context.depth - 1 < ·.depth)).forM fun l =>
          emitAt (dropOp l) b.previous.line)
        ((b.withDepth (b.context.depth - 1)).withLocals (b.context.locals.drop
          (b.context.locals.takeWhile (b.context.depth - 1 < ·.depth)).length)) := rfl
  rw [hrun, hended, hlocals, List.drop_left, hdepth]
  rfl

/-- Closing a scope drops the locals of the scope. -/
theorem of_endScope {new old : List Local} {depth : Nat} (h : Clean endScope b u b')
    (hlocals : b.context.locals = new ++ old) (hdepth : b.context.depth = depth + 1)
    (hnew : ∀ l ∈ new, l.depth = depth + 1) (hold : ∀ l ∈ old, l.depth ≤ depth) :
    Clean (new.forM fun l => emitAt (dropOp l) b.previous.line)
      ((b.withDepth depth).withLocals old) u b' := by
  rwa [Clean, ← endScope_eq hlocals hdepth hnew hold]

/-! ## Functions -/

theorem of_beginFunction {name : String} {kind : FunctionKind}
    (h : Clean (beginFunction name kind) b u b') :
    { b with context := .start name kind, enclosing := b.context :: b.enclosing } = b' :=
  of_modify h

/-- The function at hand is given back, and the one around it is at hand again. -/
theorem of_endFunction {finished : FunctionContext} (h : Clean endFunction b finished b') :
    ∃ b₁, Clean emitReturn b () b₁ ∧ b₁.context = finished ∧
      ∀ outer rest, b₁.enclosing = outer :: rest →
        { b₁ with context := outer, enclosing := rest } = b' := by
  unfold endFunction at h
  obtain ⟨_, b₁, hreturn, h⟩ := h.bind_of_cumulative fun _ =>
    cumulative_bind inferInstance fun _ =>
      cumulative_bind (cumulative_modify fun b => by split <;> rfl) fun _ => inferInstance
  obtain ⟨hfinished, hb⟩ := of_pure h.bind_get.bind_modify
  refine ⟨b₁, hreturn, hfinished, fun outer rest henclosing => ?_⟩
  rw [← hb, henclosing]

/-- A finished function is kept behind the others. -/
theorem of_keepFunction {finished : FunctionContext} {id : FunctionId}
    (h : Clean (keepFunction finished) b id b') :
    id = ⟨b.functions.size⟩ ∧ { b with functions := b.functions.push finished.complete } = b' := by
  unfold keepFunction at h
  obtain ⟨hid, hb⟩ := of_pure h.bind_get.bind_modify
  exact ⟨hid.symm, hb⟩

end Build.Clean

end ScriptVM
