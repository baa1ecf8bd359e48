/-
# Layout does not matter, nor do earlier functions

Tokens carry the places at which they stand in the source, and code carries the lines from which it
comes.  Building a program never looks at them: leaving them out before a step is the same as
leaving them out after it.  It does not look at the functions that there are already either: behind
them its own functions have higher numbers, and everything else stays the same.  `Build.Displaces`
says both at once.  Each phrase inherits this from its parts, complaints and recovery included,
since the steps that it takes depend on the kinds and texts of tokens only.

So two sources with the same tokens up to their places compile to programs that differ in their line
tables only, or have the same complaints up to their places.

Main statements: `Program.compile_layout`, `Program.compile_behind`.
-/
import Mathlib.Data.List.Forall2
import ScriptVM.Proofs.Program.Complaints

namespace ScriptVM

/-! ## Leaving out places -/

/-- A token without its place. -/
abbrev Token.unplaced (token : Token) : Token :=
  ⟨token.kind, token.lexeme, 0, 0⟩

/-- An item without its place, if it is a token. -/
abbrev ScanItem.unplaced : ScanItem → ScanItem :=
  Except.map Token.unplaced

/-- A complaint about a token without its place. -/
def CompileError.unplaced (e : CompileError) : CompileError :=
  match e.token? with
  | some token => ⟨e.kind, 0, some token.unplaced, Text.lineAt "" 0⟩
  | none => ⟨e.kind, e.line, none, Text.lineAt "" e.line⟩

/-! ## Moving behind other functions -/

/-- A constant, where functions have higher numbers. -/
abbrev Value.displaced (n : Nat) : Value → Value
  | .functionRef id => .functionRef ⟨id.index + n⟩
  | v => v

/-- A chunk without its lines, behind a number of functions. -/
abbrev Chunk.displaced (n : Nat) (chunk : Chunk) : Chunk :=
  { chunk with
    lines := chunk.lines.map fun _ => 0
    constants := chunk.constants.map (Value.displaced n) }

/-- A function without the lines of its code, behind a number of functions. -/
abbrev Function.displaced (n : Nat) (f : Function) : Function :=
  { f with chunk := f.chunk.displaced n }

/-- A context without the lines of its function, behind a number of functions. -/
abbrev FunctionContext.displaced (n : Nat) (context : FunctionContext) : FunctionContext :=
  { context with function := context.function.displaced n }

/-- A builder without places and without the source itself, behind other functions. -/
abbrev Builder.displaced (earlier : Array Function) (b : Builder) : Builder where
  source := ""
  pending := b.pending.map ScanItem.unplaced
  previous := b.previous.unplaced
  context := b.context.displaced earlier.size
  enclosing := b.enclosing.map (FunctionContext.displaced earlier.size)
  classes := b.classes
  errors := b.errors.map CompileError.unplaced
  functions := earlier ++ b.functions.map (Function.displaced earlier.size)

/-- Values in which places or numbers of functions may occur. -/
class Displaced (α : Type) where
  /-- The value without places, behind other functions. -/
  displaced : Array Function → α → α

/-- Values in which neither places nor numbers of functions occur. -/
class Placeless (α : Type) [Displaced α] : Prop where
  /-- There is nothing to change. -/
  eq : ∀ (earlier : Array Function) (a : α), Displaced.displaced earlier a = a

instance : Displaced Token := ⟨fun _ token => token.unplaced⟩
instance : Displaced Builder := ⟨Builder.displaced⟩
instance : Displaced FunctionContext := ⟨fun earlier => FunctionContext.displaced earlier.size⟩
instance : Displaced FunctionId := ⟨fun earlier id => ⟨id.index + earlier.size⟩⟩

instance {α : Type} [Displaced α] : Displaced (Except CompileError α) where
  displaced earlier
    | .ok a => .ok (Displaced.displaced earlier a)
    | .error e => .error e.unplaced

instance : Displaced Unit := ⟨fun _ u => u⟩
instance : Displaced Bool := ⟨fun _ c => c⟩
instance : Displaced Nat := ⟨fun _ n => n⟩
instance : Displaced UInt8 := ⟨fun _ byte => byte⟩
instance : Displaced Build.Access := ⟨fun _ access => access⟩
instance : Displaced (Option UInt8) := ⟨fun _ index? => index?⟩

instance : Placeless Unit := ⟨fun _ _ => rfl⟩
instance : Placeless Bool := ⟨fun _ _ => rfl⟩
instance : Placeless Nat := ⟨fun _ _ => rfl⟩
instance : Placeless UInt8 := ⟨fun _ _ => rfl⟩
instance : Placeless Build.Access := ⟨fun _ _ => rfl⟩
instance : Placeless (Option UInt8) := ⟨fun _ _ => rfl⟩

namespace Build

section

variable {α : Type} [Displaced α]

/-- The outcome of a step without places, behind other functions. -/
def outcomeDisplaced (earlier : Array Function) :
    EStateM.Result CompileError Builder α → EStateM.Result CompileError Builder α
  | .ok a b => .ok (Displaced.displaced earlier a) (b.displaced earlier)
  | .error e b => .error e.unplaced (b.displaced earlier)

/-- A step does without places and behind other functions what another one does. -/
class Displaces (earlier : Array Function) (x y : Build α) : Prop where
  /-- It does not matter when places are left out and functions are put in front. -/
  run : ∀ b, y (b.displaced earlier) = outcomeDisplaced earlier (x b)

end

section

variable {α β : Type} [Displaced α] [Displaced β] {earlier : Array Function}

/-! ## Steps -/

variable {x y : Build α} {f g : α → Build β}

/-- A sequence is displaced if both of its parts are. -/
theorem Displaces.bind (hx : Displaces earlier x y)
    (hf : ∀ a, Displaces earlier (f a) (g (Displaced.displaced earlier a))) :
    Displaces earlier (x >>= f) (y >>= g) where
  run b := by
    have hy := hx.run b
    cases hrun : x b with
    | ok a b' =>
      rw [hrun] at hy
      rw [bind_of_ok hrun]
      exact (bind_of_ok hy).trans ((hf a).run b')
    | error e b' =>
      rw [hrun] at hy
      rw [bind_of_error hrun]
      exact bind_of_error hy

instance [Placeless α] [Displaces earlier x y] [hf : ∀ a, Displaces earlier (f a) (g a)] :
    Displaces earlier (x >>= f) (y >>= g) :=
  .bind inferInstance fun a => (Placeless.eq earlier a).symm ▸ hf a

theorem Displaces.bindToken {x y : Build Token} {f g : Token → Build β} (hx : Displaces earlier x y)
    (hf : ∀ t, Displaces earlier (f t) (g t.unplaced)) : Displaces earlier (x >>= f) (y >>= g) :=
  hx.bind hf

theorem Displaces.bindBuilder {x y : Build Builder} {f g : Builder → Build β}
    (hx : Displaces earlier x y) (hf : ∀ b, Displaces earlier (f b) (g (b.displaced earlier))) :
    Displaces earlier (x >>= f) (y >>= g) :=
  hx.bind hf

/-- A step that looks at the function at hand is displaced with it. -/
theorem Displaces.bindContext {x y : Build FunctionContext} {f g : FunctionContext → Build β}
    (hx : Displaces earlier x y)
    (hf : ∀ c, Displaces earlier (f c) (g (c.displaced earlier.size))) :
    Displaces earlier (x >>= f) (y >>= g) :=
  hx.bind hf

instance {x y : Build Token} {f g : Token → Build β} [Displaces earlier x y]
    [∀ t, Displaces earlier (f t) (g t.unplaced)] : Displaces earlier (x >>= f) (y >>= g) :=
  .bindToken inferInstance inferInstance

instance {x y : Build Builder} {f g : Builder → Build β} [Displaces earlier x y]
    [∀ b, Displaces earlier (f b) (g (b.displaced earlier))] :
    Displaces earlier (x >>= f) (y >>= g) :=
  .bindBuilder inferInstance inferInstance

instance {x y : Build FunctionContext} {f g : FunctionContext → Build β} [Displaces earlier x y]
    [∀ c, Displaces earlier (f c) (g (c.displaced earlier.size))] :
    Displaces earlier (x >>= f) (y >>= g) :=
  .bindContext inferInstance inferInstance

instance {x y : Build (Except CompileError α)} {f g : Except CompileError α → Build β}
    [Displaces earlier x y]
    [hf : ∀ outcome, Displaces earlier (f outcome) (g (Displaced.displaced earlier outcome))] :
    Displaces earlier (x >>= f) (y >>= g) :=
  .bind inferInstance hf

instance [Placeless α] (a : α) : Displaces earlier (pure a : Build α) (pure a) where
  run b := congrArg (fun a => EStateM.Result.ok a (b.displaced earlier))
    (Placeless.eq earlier a).symm

instance (t : Token) : Displaces earlier (pure t : Build Token) (pure t.unplaced) := ⟨fun _ => rfl⟩

instance (c : FunctionContext) :
    Displaces earlier (pure c : Build FunctionContext) (pure (c.displaced earlier.size)) :=
  ⟨fun _ => rfl⟩

instance (c : Prop) [Decidable c] (x x' y y' : Build α) [Displaces earlier x y]
    [Displaces earlier x' y'] :
    Displaces earlier (if c then x else x') (if c then y else y') := by
  split <;> infer_instance

instance : Displaces earlier (get : Build Builder) get := ⟨fun _ => rfl⟩

theorem Displaces.modify {f g : Builder → Builder}
    (h : ∀ b, g (b.displaced earlier) = (f b).displaced earlier) :
    Displaces earlier (modify f : Build Unit) (modify g) :=
  ⟨fun b => congrArg (EStateM.Result.ok ()) (h b)⟩

instance (f : α → β) (x y : Build α) [Placeless α] [Placeless β] [Displaces earlier x y] :
    Displaces earlier (f <$> x) (f <$> y) := by
  show Displaces earlier (EStateM.map f x) (EStateM.map f y)
  refine ⟨fun b => ?_⟩
  have hy : y (b.displaced earlier) = outcomeDisplaced earlier (x b) := Displaces.run b
  rw [EStateM.map, EStateM.map, hy]
  cases x b with
  | ok a b' =>
    simp only [outcomeDisplaced]
    rw [Placeless.eq, Placeless.eq]
  | error e b' => rfl

/-! ## Complaints -/

theorem scanErrorAt_displaced (source : String) (e : ScanError) :
    (scanErrorAt source e).unplaced = scanErrorAt "" e := rfl

instance (token : Token) (kind : ErrorKind) :
    Displaces earlier (fail token kind : Build α) (fail token.unplaced kind) := ⟨fun _ => rfl⟩

instance (e : CompileError) :
    Displaces earlier (throw e : Build α) (throw e.unplaced) := ⟨fun _ => rfl⟩

instance (e : CompileError) : Displaces earlier (note e) (note e.unplaced) :=
  .modify fun b => by simp [Array.map_push]

instance (token : Token) (kind : ErrorKind) :
    Displaces earlier (noteAt token kind) (noteAt token.unplaced kind) :=
  ⟨fun b =>
    have h : Displaces earlier (note (errorAt b.source token kind))
      (note (errorAt b.source token kind).unplaced) := inferInstance
    h.run b⟩

instance (x y : Build α) [Displaces earlier x y] : Displaces earlier (attempt x) (attempt y) where
  run b := by
    have hy : y (b.displaced earlier) = outcomeDisplaced earlier (x b) := Displaces.run b
    unfold attempt
    rw [hy]
    cases x b <;> rfl

instance (outcome : Except CompileError α) :
    Displaces earlier (conclude outcome) (conclude (Displaced.displaced earlier outcome)) := by
  cases outcome with
  | ok a => exact ⟨fun _ => rfl⟩
  | error e => exact ⟨fun _ => rfl⟩

instance [Placeless α] (token : Token) (outcome : Except ErrorKind α) :
    Displaces earlier (orFailAt token outcome) (orFailAt token.unplaced outcome) := by
  cases outcome <;> (unfold orFailAt; infer_instance)

/-! ## Tokens -/

/-- What is settled does not depend on places in the source. -/
theorem settle_displaced (source : String) (errors : Array CompileError) (items : List ScanItem) :
    settle "" (errors.map CompileError.unplaced) (items.map ScanItem.unplaced) =
      ((settle source errors items).1.map CompileError.unplaced,
        (settle source errors items).2.map ScanItem.unplaced) := by
  induction items generalizing errors with
  | nil => rfl
  | cons item rest ih =>
    cases item with
    | ok token => rfl
    | error e =>
      have hpush : (errors.map CompileError.unplaced).push (scanErrorAt "" e) =
          (errors.push (scanErrorAt source e)).map CompileError.unplaced := by
        rw [Array.map_push, scanErrorAt_displaced]
      show settle "" ((errors.map CompileError.unplaced).push (scanErrorAt "" e))
        (rest.map ScanItem.unplaced) = _
      rw [hpush, ih]
      rfl

/-- The first token does not depend on places in the source. -/
theorem firstToken_displaced (source : String) (previous : Token) (items : List ScanItem) :
    firstToken "" previous.unplaced (items.map ScanItem.unplaced) =
      (firstToken source previous items).unplaced := by
  cases items with
  | nil => rfl
  | cons item rest => cases item <;> rfl

instance : Displaces earlier peek peek where
  run b := by
    unfold peek
    dsimp only
    rw [settle_displaced b.source, firstToken_displaced b.source]
    rfl

instance : Displaces earlier advance advance := by
  unfold advance
  refine .bindToken inferInstance fun token => .bind (.modify fun b => ?_) fun _ => inferInstance
  show Builder.mk _ _ _ _ _ _ _ _ = Builder.displaced earlier _
  dsimp only
  split <;> simp

instance (kind : TokenKind) : Displaces earlier (check kind) (check kind) := by
  unfold check
  infer_instance

instance (kind : TokenKind) : Displaces earlier (atEnd kind) (atEnd kind) := by
  unfold atEnd
  infer_instance

instance (kind : TokenKind) : Displaces earlier (accept kind) (accept kind) := by
  unfold accept
  infer_instance

instance (canAssign : Bool) :
    Displaces earlier (acceptAssignment canAssign) (acceptAssignment canAssign) := by
  unfold acceptAssignment
  infer_instance

instance (what : Expectation) : Displaces earlier (expect what) (expect what) := by
  unfold expect
  infer_instance

/-! ## Repetition -/

instance (round round' : Build Bool) [Displaces earlier round round'] (items : List ScanItem) :
    Displaces earlier (repeatOver round items)
      (repeatOver round' (items.map ScanItem.unplaced)) := by
  induction items with
  | nil =>
    rw [List.map_nil]
    unfold repeatOver
    infer_instance
  | cons _ rest ih =>
    rw [List.map_cons]
    unfold repeatOver
    infer_instance

instance (round round' : Build Bool) [Displaces earlier round round'] :
    Displaces earlier (repeatWhile round) (repeatWhile round') := by
  unfold repeatWhile
  infer_instance

/-! ## Code, variables and scopes -/

/-- What is done with the line of the token read last is done without it. -/
theorem Displaces.previousLine {f g : Nat → Build β}
    (h : ∀ line, Displaces earlier (f line) (g 0)) :
    Displaces earlier (previousLine >>= f) (previousLine >>= g) :=
  ⟨fun b => (h b.previous.line).run b⟩

theorem Displaces.modifyContext {f g : FunctionContext → FunctionContext}
    (h : ∀ c, g (c.displaced earlier.size) = (f c).displaced earlier.size) :
    Displaces earlier (modifyContext f) (modifyContext g) :=
  .modify fun b => congrArg (fun context => { b.displaced earlier with context }) (h b.context)

/-- A change of the chunk is displaced if it is so for every chunk. -/
theorem Displaces.modifyChunk {f g : Chunk → Chunk}
    (h : ∀ c, g (c.displaced earlier.size) = (f c).displaced earlier.size) :
    Displaces earlier (modifyChunk f) (modifyChunk g) :=
  .modifyContext fun c => congrArg
    (fun chunk => { c.displaced earlier.size with
      function := { c.function.displaced earlier.size with chunk } })
    (h c.function.chunk)

instance : Displaces earlier codeSize codeSize := ⟨fun _ => rfl⟩

section

variable (n : Nat) (chunk : Chunk)

theorem addByte_displaced (byte : UInt8) (line : Nat) :
    (chunk.displaced n).addByte byte 0 = (chunk.addByte byte line).displaced n := by
  simp [Chunk.addByte]

theorem addOpcode_displaced (op : Opcode) (line : Nat) :
    (chunk.displaced n).addOpcode op 0 = (chunk.addOpcode op line).displaced n :=
  addByte_displaced n chunk op.toByte line

/-- An instruction is appended to a displaced chunk as to any other. -/
theorem addInstruction_displaced (op : Opcode) (operand : UInt8) (line : Nat) :
    (chunk.displaced n).addInstruction op operand 0 =
      (chunk.addInstruction op operand line).displaced n := by
  rw [Chunk.addInstruction, addOpcode_displaced n chunk op line, addByte_displaced n _ operand line]
  rfl

/-- A jump is appended to a displaced chunk as to any other. -/
theorem addJump_displaced (op : Opcode) (line : Nat) :
    (chunk.displaced n).addJump op 0 = (chunk.addJump op line).displaced n := by
  rw [Chunk.addJump, addOpcode_displaced n chunk op line, addByte_displaced n _ _ line,
    addByte_displaced n _ _ line]
  rfl

/-- A chunk or why there is none, without lines, behind a number of functions. -/
abbrev chunkDisplaced : Except JumpError Chunk → Except JumpError Chunk :=
  Except.map (Chunk.displaced n)

/-- A jump in a displaced chunk is patched as in any other. -/
theorem patchJump_displaced (offset : Nat) :
    (chunk.displaced n).patchJump offset = chunkDisplaced n (chunk.patchJump offset) := by
  have hsize : (chunk.displaced n).size = chunk.size := rfl
  unfold Chunk.patchJump
  rw [hsize]
  dsimp only
  split
  · rfl
  · split <;> rfl

/-- A loop is appended to a displaced chunk as to any other. -/
theorem addLoop_displaced (start line : Nat) :
    (chunk.displaced n).addLoop start 0 = chunkDisplaced n (chunk.addLoop start line) := by
  have hsize : (chunk.displaced n).size = chunk.size := rfl
  unfold Chunk.addLoop
  rw [hsize]
  dsimp only
  split
  · rw [addOpcode_displaced n chunk .loop line, addByte_displaced n _ _ line,
      addByte_displaced n _ _ line]
    rfl
  · rfl

/-- Displaced values are the same constants as before. -/
theorem sameConstant_displaced (v w : Value) :
    (v.displaced n).sameConstant (w.displaced n) = v.sameConstant w := by
  have hid : ∀ id id' : FunctionId, id.index = id'.index ↔ id = id' := fun id id' => by
    cases id
    cases id'
    simp
  cases v <;> cases w <;> simp [Value.sameConstant, Value.equals, hid]

/-- A constant is added to a displaced chunk as to any other. -/
theorem addConstant_displaced (value : Value) :
    (chunk.displaced n).addConstant (value.displaced n) =
      ((chunk.addConstant value).1, (chunk.addConstant value).2.displaced n) := by
  have hfind :
      (chunk.constants.map (Value.displaced n)).findIdx? (·.sameConstant (value.displaced n)) =
      chunk.constants.findIdx? (·.sameConstant value) := by
    rw [Array.findIdx?_map]
    exact congrArg (chunk.constants.findIdx? ·) (funext fun v => sameConstant_displaced n v value)
  unfold Chunk.addConstant
  rw [hfind]
  dsimp only
  split
  · rfl
  · rw [Array.size_map]
    split
    · simp [Array.map_push]
    · rfl

end

instance (op : Opcode) (line : Nat) : Displaces earlier (emitAt op line) (emitAt op 0) :=
  .modifyChunk fun chunk => addOpcode_displaced _ chunk op line

instance (op : Opcode) (operand : UInt8) (line : Nat) :
    Displaces earlier (emitWithAt op operand line) (emitWithAt op operand 0) :=
  .modifyChunk fun chunk => addInstruction_displaced _ chunk op operand line

instance (byte : UInt8) (line : Nat) :
    Displaces earlier (emitByteAt byte line) (emitByteAt byte 0) :=
  .modifyChunk fun chunk => addByte_displaced _ chunk byte line

instance (op : Opcode) : Displaces earlier (emit op) (emit op) := by
  unfold emit
  exact .previousLine fun line => inferInstance

instance : Displaces earlier emitReturn emitReturn := by
  unfold emitReturn
  exact .previousLine fun line => inferInstance

instance (op : Opcode) (line : Nat) : Displaces earlier (emitJump op line) (emitJump op 0) := by
  have hjump : Displaces earlier (modifyChunk (·.addJump op line)) (modifyChunk (·.addJump op 0)) :=
    .modifyChunk fun chunk => addJump_displaced _ chunk op line
  unfold emitJump
  infer_instance

instance (outcome : Except JumpError Chunk) :
    Displaces earlier (setChunk outcome) (setChunk (chunkDisplaced earlier.size outcome)) := by
  cases outcome with
  | ok chunk =>
    show Displaces earlier (modifyChunk fun _ => chunk)
      (modifyChunk fun _ => chunk.displaced earlier.size)
    exact .modifyChunk fun _ => rfl
  | error e =>
    show Displaces earlier (do fail (← get).previous (.jump e)) (do fail (← get).previous (.jump e))
    infer_instance

instance (offset : Nat) : Displaces earlier (patchJump offset) (patchJump offset) := by
  unfold patchJump
  refine .bindBuilder inferInstance fun b => ?_
  rw [patchJump_displaced _ b.context.function.chunk]
  infer_instance

instance (start line : Nat) : Displaces earlier (emitLoop start line) (emitLoop start 0) := by
  unfold emitLoop
  refine .bindBuilder inferInstance fun b => ?_
  rw [addLoop_displaced _ b.context.function.chunk start line]
  infer_instance

instance constantAt_displaces (token : Token) (value : Value) :
    Displaces earlier (constantAt token value)
      (constantAt token.unplaced (value.displaced earlier.size)) := by
  unfold constantAt
  refine .bindBuilder inferInstance fun b => ?_
  rw [addConstant_displaced _ b.context.function.chunk]
  obtain ⟨index?, chunk⟩ := b.context.function.chunk.addConstant value
  have hchunk : Displaces earlier (modifyChunk fun _ => chunk)
      (modifyChunk fun _ => chunk.displaced earlier.size) := .modifyChunk fun _ => rfl
  cases index? <;> (dsimp only; infer_instance)

instance constant_displaces (value : Value) :
    Displaces earlier (constant value) (constant (value.displaced earlier.size)) := by
  unfold constant
  infer_instance

instance (i : Int64) : Displaces earlier (constant (.int i)) (constant (.int i)) :=
  constant_displaces (.int i)

instance (x : Float) : Displaces earlier (constant (.number x)) (constant (.number x)) :=
  constant_displaces (.number x)

instance (s : String) : Displaces earlier (constant (.string s)) (constant (.string s)) :=
  constant_displaces (.string s)

instance (name : Token) : Displaces earlier (nameConstant name) (nameConstant name.unplaced) :=
  constantAt_displaces name (.string name.lexeme)

/-- A local is added to a displaced function as to any other. -/
theorem addLocal_displaced (n : Nat) (context : FunctionContext) (name : String) :
    (context.displaced n).addLocal name =
      (context.addLocal name).map (FunctionContext.displaced n) := by
  unfold FunctionContext.addLocal
  split <;> rfl

theorem declares_displaced (n : Nat) (context : FunctionContext) (name : String) :
    (context.displaced n).declares name = context.declares name := rfl

theorem resolveLocal_displaced (n : Nat) (context : FunctionContext) (name : String) :
    (context.displaced n).resolveLocal name = context.resolveLocal name := rfl

instance (token : Token) (outcome : Except ErrorKind FunctionContext) :
    Displaces earlier (orFailAt token outcome)
      (orFailAt token.unplaced (outcome.map (FunctionContext.displaced earlier.size))) := by
  cases outcome with
  | ok context =>
    exact inferInstanceAs (Displaces earlier (pure context) (pure (context.displaced earlier.size)))
  | error kind =>
    exact inferInstanceAs (Displaces earlier (fail token kind) (fail token.unplaced kind))

instance (name : String) (token : Token) :
    Displaces earlier (addLocal name token) (addLocal name token.unplaced) := by
  unfold addLocal
  refine .bindBuilder inferInstance fun b => ?_
  rw [addLocal_displaced _ b.context]
  exact .bindContext inferInstance fun context => .modifyContext fun _ => rfl

instance (name : Token) :
    Displaces earlier (declareVariable name) (declareVariable name.unplaced) := by
  unfold declareVariable
  refine .bindBuilder inferInstance fun b => ?_
  dsimp only
  rw [declares_displaced _ b.context]
  infer_instance

instance : Displaces earlier markInitialized markInitialized :=
  .modifyContext fun c => by
    unfold FunctionContext.markInitialized
    dsimp only
    split <;> rfl

instance (name? : Option UInt8) :
    Displaces earlier (defineVariable name?) (defineVariable name?) := by
  cases name? with
  | none =>
    unfold defineVariable
    infer_instance
  | some name =>
    unfold defineVariable
    exact .previousLine fun line => inferInstance

instance : Displaces earlier variableName variableName := by
  unfold variableName
  infer_instance

/-- A variable is captured by a displaced function as by any other. -/
theorem addCapture_displaced (n : Nat) (context : FunctionContext) (capture : Capture) :
    (context.displaced n).addCapture capture =
      ((context.addCapture capture).1, (context.addCapture capture).2.displaced n) := by
  unfold FunctionContext.addCapture
  dsimp only
  split
  · rfl
  · split <;> rfl

/-- A variable is captured over displaced functions as over any others. -/
theorem resolveCapture_displaced (n : Nat) (name : String) (context : FunctionContext)
    (enclosing : List FunctionContext) :
    resolveCapture name (context.displaced n) (enclosing.map (FunctionContext.displaced n)) =
      ⟨(resolveCapture name context enclosing).index,
        (resolveCapture name context enclosing).context.displaced n,
        (resolveCapture name context enclosing).enclosing.map (FunctionContext.displaced n)⟩ := by
  induction enclosing generalizing context with
  | nil => rfl
  | cons outer rest ih =>
    rw [List.map_cons, resolveCapture, resolveCapture, resolveLocal_displaced, ih]
    cases outer.resolveLocal name with
    | error e => rfl
    | ok slot? =>
      cases slot? with
      | some slot =>
        dsimp only
        rw [addCapture_displaced]
        rfl
      | none =>
        dsimp only
        cases (resolveCapture name outer rest).index with
        | error e => rfl
        | ok index? =>
          cases index? with
          | none => rfl
          | some i =>
            dsimp only
            rw [addCapture_displaced]
            rfl

instance (token : Token) : Displaces earlier (resolve token) (resolve token.unplaced) := by
  unfold resolve
  refine .bindBuilder inferInstance fun b => ?_
  rw [resolveLocal_displaced _ b.context]
  refine .bind inferInstance fun slot? => ?_
  cases slot? with
  | some slot => exact inferInstanceAs (Displaces earlier (pure _) (pure _))
  | none =>
    show Displaces earlier (do _) (do _)
    rw [resolveCapture_displaced _ token.lexeme b.context]
    refine .bind (.modify fun _ => rfl) fun _ => .bind inferInstance fun index? => ?_
    cases index? with
    | some index => exact inferInstanceAs (Displaces earlier (pure _) (pure _))
    | none =>
      show Displaces earlier (do return Access.mk _ _ (← nameConstant token))
        (do return Access.mk _ _ (← nameConstant token.unplaced))
      infer_instance

instance readVariable_displaces (token : Token) :
    Displaces earlier (readVariable token) (readVariable token.unplaced) := by
  unfold readVariable
  infer_instance

instance (kind : TokenKind) (lexeme : String) (start line : Nat) :
    Displaces earlier (readVariable ⟨kind, lexeme, start, line⟩)
      (readVariable ⟨kind, lexeme, 0, 0⟩) :=
  readVariable_displaces ⟨kind, lexeme, start, line⟩

instance : Displaces earlier beginScope beginScope :=
  .modifyContext fun _ => rfl

instance {γ : Type} (xs : List γ) (f g : γ → Build PUnit) [∀ x, Displaces earlier (f x) (g x)] :
    Displaces earlier (xs.forM f) (xs.forM g) := by
  induction xs with
  | nil => exact inferInstanceAs (Displaces earlier (pure ()) (pure ()))
  | cons x rest ih =>
    exact inferInstanceAs (Displaces earlier (f x >>= fun _ => rest.forM f)
      (g x >>= fun _ => rest.forM g))

instance {γ : Type} (xs : Array γ) (f g : γ → Build PUnit) [∀ x, Displaces earlier (f x) (g x)] :
    Displaces earlier (xs.forM f) (xs.forM g) := by
  rw [forM_array_toList, forM_array_toList]
  infer_instance

instance : Displaces earlier endScope endScope := by
  have hdepth : Displaces earlier (modifyContext fun c => { c with depth := c.depth - 1 })
      (modifyContext fun c => { c with depth := c.depth - 1 }) := .modifyContext fun _ => rfl
  have hdrop : ∀ n, Displaces earlier (modifyContext fun c => { c with locals := c.locals.drop n })
      (modifyContext fun c => { c with locals := c.locals.drop n }) :=
    fun n => .modifyContext fun _ => rfl
  unfold endScope
  infer_instance

instance (step step' : Build Unit) [Displaces earlier step step'] :
    Displaces earlier (inScope step) (inScope step') := by
  unfold inScope
  infer_instance

theorem start_displaced (n : Nat) (name : String) (kind : FunctionKind) :
    (FunctionContext.start name kind).displaced n = .start name kind := by
  simp [FunctionContext.start, Function.empty, Chunk.empty]

instance (name : String) (kind : FunctionKind) :
    Displaces earlier (beginFunction name kind) (beginFunction name kind) :=
  .modify fun b => congrArg
    (fun context => { b.displaced earlier with
      context, enclosing := b.context.displaced earlier.size :: (b.displaced earlier).enclosing })
    (start_displaced _ name kind).symm

instance : Displaces earlier endFunction endFunction := by
  unfold endFunction
  refine .bind inferInstance fun _ => .bindBuilder inferInstance fun b => ?_
  refine .bind (.modify fun b => ?_) fun _ => inferInstance
  dsimp only
  cases b.enclosing <;> rfl

/-- A finished function is kept behind the earlier ones. -/
theorem keepFunction_displaces (finished : FunctionContext) :
    Displaces earlier (keepFunction finished) (keepFunction (finished.displaced earlier.size)) := by
  unfold keepFunction
  refine .bindBuilder inferInstance fun b => ?_
  dsimp only
  rw [Array.size_append, Array.size_map, Nat.add_comm]
  refine .bind (.modify fun b => ?_) fun _ => ⟨fun _ => rfl⟩
  show Builder.mk _ _ _ _ _ _ _ (Array.push (_ ++ _) _) =
    Builder.mk _ _ _ _ _ _ _ (_ ++ Array.map _ _)
  rw [Array.map_push, Array.append_push]

instance (finished : FunctionContext) (line : Nat) :
    Displaces earlier (emitClosure finished line)
      (emitClosure (finished.displaced earlier.size) 0) := by
  unfold emitClosure
  refine .bind (keepFunction_displaces finished) fun id => ?_
  exact .bind (constant_displaces (.functionRef id)) fun index => inferInstance

/-! ## Phrases -/

section

-- The longest phrases are sequences of a dozen steps.
set_option synthInstance.maxSize 1024

variable (inner : Phrase → Build Unit) [∀ p, Displaces earlier (inner p) (inner p)]

instance : Displaces earlier (anyExpression inner) (anyExpression inner) := by
  unfold anyExpression
  infer_instance

instance (excess : ErrorKind) (count : Nat) :
    Displaces earlier (listElement inner excess count) (listElement inner excess count) := by
  unfold listElement
  infer_instance

instance (excess : ErrorKind) (count : Nat) (items : List ScanItem) :
    Displaces earlier (listElements inner excess count items)
      (listElements inner excess count (items.map ScanItem.unplaced)) := by
  induction items generalizing count with
  | nil =>
    rw [List.map_nil]
    unfold listElements
    infer_instance
  | cons _ rest ih =>
    rw [List.map_cons]
    unfold listElements
    infer_instance

instance (excess : ErrorKind) (closing : Expectation) :
    Displaces earlier (expressionList inner excess closing)
      (expressionList inner excess closing) := by
  unfold expressionList
  infer_instance

instance : Displaces earlier (arguments inner) (arguments inner) := by
  unfold arguments
  infer_instance

instance (token : Token) :
    Displaces earlier (numberLiteral token) (numberLiteral token.unplaced) := by
  unfold numberLiteral
  dsimp only
  by_cases hpoint : token.lexeme.toList.contains '.' = true
  · rw [if_pos hpoint]
    cases Decimal.read token.lexeme <;> (dsimp only [Option.map]; infer_instance)
  · rw [if_neg hpoint]
    cases Decimal.readInt token.lexeme <;> (dsimp only [Option.map]; infer_instance)

instance (token : Token) :
    Displaces earlier (stringLiteral token) (stringLiteral token.unplaced) := by
  unfold stringLiteral
  infer_instance

instance (token : Token) :
    Displaces earlier (arrayLiteral inner token) (arrayLiteral inner token.unplaced) := by
  unfold arrayLiteral
  infer_instance

instance (op : Opcode) (token : Token) :
    Displaces earlier (unary inner op token) (unary inner op token.unplaced) := by
  unfold unary
  infer_instance

instance : Displaces earlier (grouping inner) (grouping inner) := by
  unfold grouping
  infer_instance

instance (token : Token) (canAssign : Bool) :
    Displaces earlier (variableAccess inner token canAssign)
      (variableAccess inner token.unplaced canAssign) := by
  unfold variableAccess
  infer_instance

instance (token : Token) : Displaces earlier (selfAccess token) (selfAccess token.unplaced) := by
  unfold selfAccess
  infer_instance

instance (token : Token) :
    Displaces earlier (requireSuperclass token) (requireSuperclass token.unplaced) := by
  unfold requireSuperclass
  refine .bindBuilder inferInstance fun b => ?_
  dsimp only
  split <;> infer_instance

instance (token : Token) :
    Displaces earlier (superAccess inner token) (superAccess inner token.unplaced) := by
  unfold superAccess
  dsimp only
  infer_instance

instance (token : Token) (canAssign : Bool) :
    Displaces earlier (primary inner token canAssign) (primary inner token.unplaced canAssign) := by
  unfold primary
  dsimp only
  split <;> infer_instance

instance (token : Token) :
    Displaces earlier (conjunction inner token) (conjunction inner token.unplaced) := by
  unfold conjunction
  infer_instance

instance (token : Token) :
    Displaces earlier (disjunction inner token) (disjunction inner token.unplaced) := by
  unfold disjunction
  infer_instance

instance (token : Token) :
    Displaces earlier (subscript inner token) (subscript inner token.unplaced) := by
  unfold subscript
  infer_instance

instance (canAssign : Bool) :
    Displaces earlier (property inner canAssign) (property inner canAssign) := by
  unfold property
  infer_instance

instance (token : Token) (canAssign : Bool) (continuation : Continuation) :
    Displaces earlier (continueWith inner token canAssign continuation)
      (continueWith inner token.unplaced canAssign continuation) := by
  cases continuation <;> (unfold continueWith; infer_instance)

instance (least : Precedence) (canAssign : Bool) :
    Displaces earlier (continueOnce inner least canAssign)
      (continueOnce inner least canAssign) := by
  unfold continueOnce
  refine .bindToken inferInstance fun token => ?_
  dsimp only
  split <;> infer_instance

instance (least : Precedence) :
    Displaces earlier (expression inner least) (expression inner least) := by
  unfold expression
  dsimp only
  infer_instance

instance (closing : TokenKind) :
    Displaces earlier (blockRound inner closing) (blockRound inner closing) := by
  unfold blockRound
  infer_instance

instance : Displaces earlier (block inner) (block inner) := by
  unfold block
  infer_instance

instance (jump line : Nat) : Displaces earlier (landAndDrop jump line) (landAndDrop jump 0) := by
  unfold landAndDrop
  infer_instance

instance : Displaces earlier (alternative inner) (alternative inner) := by
  unfold alternative
  infer_instance

instance : Displaces earlier (conditional inner) (conditional inner) := by
  unfold conditional
  exact .bind inferInstance fun _ => .previousLine fun line => inferInstance

instance : Displaces earlier (whileLoop inner) (whileLoop inner) := by
  unfold whileLoop
  exact .bind inferInstance fun start => .bind inferInstance fun _ =>
    .previousLine fun line => inferInstance

instance (keyword : Token) :
    Displaces earlier (returnStatement inner keyword) (returnStatement inner keyword.unplaced) := by
  unfold returnStatement
  refine .bindBuilder inferInstance fun b => ?_
  dsimp only
  split <;> infer_instance

instance (keyword : Token) :
    Displaces earlier (printStatement inner keyword) (printStatement inner keyword.unplaced) := by
  unfold printStatement
  infer_instance

instance : Displaces earlier (expressionStatement inner) (expressionStatement inner) := by
  unfold expressionStatement
  infer_instance

instance : Displaces earlier (statement inner) (statement inner) := by
  unfold statement
  refine .bindToken inferInstance fun token => ?_
  dsimp only
  split <;> infer_instance

instance : Displaces earlier parameter parameter := by
  have hcount : Displaces earlier
      (modifyContext fun c => { c with function :=
        { c.function with arity := c.function.arity + 1 } })
      (modifyContext fun c => { c with function :=
        { c.function with arity := c.function.arity + 1 } }) :=
    .modifyContext fun _ => rfl
  unfold parameter
  dsimp only
  infer_instance

instance : Displaces earlier parameters parameters := by
  unfold parameters
  infer_instance

instance (hasParameters : Bool) :
    Displaces earlier (functionBody inner hasParameters) (functionBody inner hasParameters) := by
  unfold functionBody
  infer_instance

instance (name : String) (kind : FunctionKind) (hasParameters : Bool) :
    Displaces earlier (function inner name kind hasParameters)
      (function inner name kind hasParameters) := by
  unfold function
  exact .previousLine fun line => inferInstance

instance : Displaces earlier (variableDeclaration inner) (variableDeclaration inner) := by
  unfold variableDeclaration
  infer_instance

instance : Displaces earlier (functionDeclaration inner) (functionDeclaration inner) := by
  unfold functionDeclaration
  infer_instance

instance : Displaces earlier (member inner) (member inner) := by
  unfold member
  infer_instance

instance : Displaces earlier (memberRound inner) (memberRound inner) := by
  unfold memberRound
  infer_instance

instance : Displaces earlier markSuperclass markSuperclass :=
  .modify fun b => by
    dsimp only
    cases b.classes <;> rfl

instance (name : Token) : Displaces earlier (superclass name) (superclass name.unplaced) := by
  unfold superclass
  refine .bindToken inferInstance fun parent => ?_
  dsimp only
  split <;> infer_instance

instance (name : Token) :
    Displaces earlier (classBody inner name) (classBody inner name.unplaced) := by
  unfold classBody
  infer_instance

instance : Displaces earlier beginClass beginClass :=
  .modify fun _ => rfl

instance : Displaces earlier endClass endClass := by
  unfold endClass
  refine .bindBuilder inferInstance fun b => ?_
  exact .bind (.modify fun _ => rfl) fun _ => inferInstance

instance : Displaces earlier (classDeclaration inner) (classDeclaration inner) := by
  unfold classDeclaration
  infer_instance

instance : Displaces earlier synchronizeRound synchronizeRound := by
  unfold synchronizeRound
  infer_instance

instance : Displaces earlier synchronize synchronize := by
  unfold synchronize
  infer_instance

instance : Displaces earlier (tryDeclaration inner) (tryDeclaration inner) := by
  unfold tryDeclaration
  refine .bindToken inferInstance fun token => ?_
  dsimp only
  split <;> infer_instance

instance : Displaces earlier (declaration inner) (declaration inner) := by
  unfold declaration
  refine .bind inferInstance fun outcome => ?_
  cases outcome with
  | ok u => exact inferInstanceAs (Displaces earlier (pure ()) (pure ()))
  | error e =>
    exact inferInstanceAs (Displaces earlier (note e >>= fun _ => synchronize)
      (note e.unplaced >>= fun _ => synchronize))

end

instance (depth : Nat) (p : Phrase) : Displaces earlier (phrase depth p) (phrase depth p) := by
  induction depth generalizing p with
  | zero =>
    unfold phrase
    infer_instance
  | succ depth ih => cases p <;> (unfold phrase; infer_instance)

instance (depth : Nat) : Displaces earlier (declarations depth) (declarations depth) := by
  unfold declarations
  infer_instance

instance (depth : Nat) :
    Displaces earlier (do declarations depth; emitReturn) (do declarations depth; emitReturn) :=
  .bind inferInstance fun _ => inferInstance

end

end Build

/-! ## Whole sources -/

/-- What of a token is not its place. -/
def Token.wording (token : Token) : TokenKind × String :=
  (token.kind, token.lexeme)

/-- Two functions are the same but for their line tables. -/
structure Function.SameButLines (f g : Function) : Prop where
  /-- They have one name. -/
  name : f.name = g.name
  /-- They are of one kind. -/
  kind : f.kind = g.kind
  /-- They take as many arguments. -/
  arity : f.arity = g.arity
  /-- They capture as many variables. -/
  captureCount : f.captureCount = g.captureCount
  /-- Their chunks have one name. -/
  chunkName : f.chunk.name = g.chunk.name
  /-- They have the same code bytes. -/
  code : f.chunk.code = g.chunk.code
  /-- They have the same constants. -/
  constants : f.chunk.constants = g.chunk.constants

/-- Two complaints are the same but for the place and the excerpt. -/
structure CompileError.SameButPlace (e e' : CompileError) : Prop where
  /-- They have one cause. -/
  kind : e.kind = e'.kind
  /-- They are about tokens of one kind and text. -/
  token : e.token?.map Token.wording = e'.token?.map Token.wording

theorem Value.displaced_zero : Value.displaced 0 = id :=
  funext fun v => by cases v <;> rfl

theorem Function.displaced_displaced_zero (n : Nat) (f : Function) :
    (f.displaced n).displaced 0 = f.displaced n := by
  simp [Function.displaced, Chunk.displaced, Value.displaced_zero]

/-- Functions that are the same when they are displaced are the same but for their lines. -/
theorem Function.sameButLines_of_displaced {f g : Function} (h : f.displaced 0 = g.displaced 0) :
    f.SameButLines g := by
  obtain ⟨hname, harity, hcount, hkind, hchunk⟩ := Function.mk.inj h
  obtain ⟨hchunkName, hcode, -, hconstants⟩ := Chunk.mk.inj hchunk
  rw [Value.displaced_zero, Array.map_id, Array.map_id] at hconstants
  exact ⟨hname, hkind, harity, hcount, hchunkName, hcode, hconstants⟩

theorem CompileError.unplaced_kind (e : CompileError) : e.unplaced.kind = e.kind := by
  unfold CompileError.unplaced
  split <;> rfl

theorem CompileError.unplaced_token (e : CompileError) :
    e.unplaced.token?.map Token.wording = e.token?.map Token.wording := by
  unfold CompileError.unplaced
  cases e.token? <;> rfl

theorem CompileError.sameButPlace_of_unplaced {e e' : CompileError} (h : e.unplaced = e'.unplaced) :
    e.SameButPlace e' where
  kind := by rw [← e.unplaced_kind, h, e'.unplaced_kind]
  token := by rw [← e.unplaced_token, h, e'.unplaced_token]

/-- Lists that a map makes equal agree item by item in what it keeps. -/
theorem forall₂_of_map_eq {γ δ : Type} {f : γ → δ} {R : γ → γ → Prop} {as as' : List γ}
    (hR : ∀ {a a'}, f a = f a' → R a a') (h : as.map f = as'.map f) : List.Forall₂ R as as' := by
  have hf : List.Forall₂ (· = ·) (as.map f) (as'.map f) := by rw [List.forall₂_eq_eq_eq, h]
  rw [List.forall₂_map_left_iff, List.forall₂_map_right_iff] at hf
  exact hf.imp fun _ _ => hR

namespace Builder

/-- The builder that an outcome leaves; its complaint, if any, is the last one. -/
def concluded : EStateM.Result CompileError Builder Unit → Builder
  | .ok _ b => b
  | .error e b => { b with errors := b.errors.push e }

theorem complete_eq (functions : Array Function) (source : String) :
    complete functions source = concluded ((do
      Build.declarations (2 * (scan source).length + 2)
      Build.emitReturn : Build Unit) (start functions source (scan source))) := rfl

/-- The outcome of a build is displaced with its builder. -/
theorem concluded_displaced (earlier : Array Function)
    (outcome : EStateM.Result CompileError Builder Unit) :
    (concluded outcome).displaced earlier = concluded (Build.outcomeDisplaced earlier outcome) := by
  cases outcome with
  | ok _ b => rfl
  | error e b => simp [concluded, Build.outcomeDisplaced]

variable {earlier earlier' functions functions' : Array Function} {source source' : String}

/-- Complaints without places are as many as those with places. -/
theorem isEmpty_of_unplaced {errors errors' : Array CompileError}
    (h : errors.map CompileError.unplaced = errors'.map CompileError.unplaced) :
    errors.isEmpty = errors'.isEmpty := by
  have hsize := congrArg Array.size h
  rw [Array.size_map, Array.size_map] at hsize
  rw [Array.isEmpty, Array.isEmpty, hsize]

/-- Builders that start alike end alike. -/
theorem complete_displaced (hlength : (scan source).length = (scan source').length)
    (h : (start functions source (scan source)).displaced earlier =
      (start functions' source' (scan source')).displaced earlier') :
    (complete functions source).displaced earlier =
      (complete functions' source').displaced earlier' := by
  rw [complete_eq, complete_eq, hlength, concluded_displaced, concluded_displaced]
  refine congrArg concluded ?_
  have hscript : ∀ {earlier : Array Function}, Build.Displaces earlier
      (do Build.declarations (2 * (scan source').length + 2); Build.emitReturn)
      (do Build.declarations (2 * (scan source').length + 2); Build.emitReturn) := inferInstance
  rw [← hscript.run, ← hscript.run, h]

end Builder

namespace Program

variable {functions : Array Function} {source source' : String} {program : Program}

/-- Sources whose tokens differ in their places only compile to programs that differ in their line
tables only, or have complaints that differ in their places only. -/
theorem compile_layout (functions : Array Function) {tokens tokens' : List Token}
    (h : scan source = tokens.map .ok) (h' : scan source' = tokens'.map .ok)
    (hwording : tokens.map Token.wording = tokens'.map Token.wording) :
    (∃ program program', compileAfter functions source = .ok program ∧
      compileAfter functions source' = .ok program' ∧ program.main = program'.main ∧
      List.Forall₂ Function.SameButLines program.functions.toList program'.functions.toList) ∨
    ∃ errors errors', compileAfter functions source = .error errors ∧
      compileAfter functions source' = .error errors' ∧
      List.Forall₂ CompileError.SameButPlace errors errors' := by
  have hitems : (scan source).map ScanItem.unplaced = (scan source').map ScanItem.unplaced := by
    have hitems := congrArg (List.map fun w => (.ok ⟨w.1, w.2, 0, 0⟩ : ScanItem)) hwording
    rw [List.map_map, List.map_map] at hitems
    rw [h, h', List.map_map, List.map_map]
    exact hitems
  have hlength : (scan source).length = (scan source').length := by
    simpa only [List.length_map] using congrArg List.length hitems
  -- Once their places are forgotten the tokens are the same, and so are the builders at the end.
  have hb : (Builder.complete functions source).displaced #[] =
      (Builder.complete functions source').displaced #[] :=
    Builder.complete_displaced hlength (by simp only [Builder.start, Builder.displaced, hitems])
  rw [compileAfter, compileAfter]
  generalize Builder.complete functions source = b at hb ⊢
  generalize Builder.complete functions source' = b' at hb ⊢
  have hcontext : b.context.function.displaced 0 = b'.context.function.displaced 0 :=
    congrArg (·.context.function) hb
  have hfunctions : b.functions.map (Function.displaced 0) =
      b'.functions.map (Function.displaced 0) := by
    simpa using congrArg (·.functions) hb
  have herrors : b.errors.map CompileError.unplaced = b'.errors.map CompileError.unplaced :=
    congrArg (·.errors) hb
  have hempty := Builder.isEmpty_of_unplaced herrors
  have hsize : b.functions.size = b'.functions.size := by
    simpa only [Array.size_map] using congrArg Array.size hfunctions
  rw [Builder.finish, Builder.finish, ← hempty]
  split
  · refine .inl ⟨_, _, rfl, rfl, congrArg FunctionId.mk hsize, ?_⟩
    refine forall₂_of_map_eq Function.sameButLines_of_displaced ?_
    rw [← Array.toList_map, ← Array.toList_map, Array.map_push, Array.map_push, hfunctions,
      hcontext]
  · refine .inr ⟨_, _, rfl, rfl, forall₂_of_map_eq CompileError.sameButPlace_of_unplaced ?_⟩
    rw [← Array.toList_map, ← Array.toList_map, herrors]

/-- A source and the same source over three lines, with a comment. -/
theorem compile_layout_comment :
    (∃ program program', compileAfter #[] "print 1 + x;" = .ok program ∧
      compileAfter #[] "print 1 // one\n  +\nx;" = .ok program' ∧ program.main = program'.main ∧
      List.Forall₂ Function.SameButLines program.functions.toList program'.functions.toList) ∨
    ∃ errors errors', compileAfter #[] "print 1 + x;" = .error errors ∧
      compileAfter #[] "print 1 // one\n  +\nx;" = .error errors' ∧
      List.Forall₂ CompileError.SameButPlace errors errors' :=
  compile_layout #[]
    (by decide +kernel : scan "print 1 + x;" = List.map .ok [⟨.printKw, "print", 0, 1⟩,
      ⟨.number, "1", 6, 1⟩, ⟨.plus, "+", 8, 1⟩, ⟨.identifier, "x", 10, 1⟩, ⟨.semicolon, ";", 11, 1⟩,
      ⟨.eof, "", 12, 1⟩])
    (by decide +kernel : scan "print 1 // one\n  +\nx;" = List.map .ok [⟨.printKw, "print", 0, 1⟩,
      ⟨.number, "1", 6, 1⟩, ⟨.plus, "+", 17, 2⟩, ⟨.identifier, "x", 19, 3⟩,
        ⟨.semicolon, ";", 20, 3⟩,
      ⟨.eof, "", 21, 3⟩])
    (by decide)

/-- **Behind other functions** a source compiles to the same functions, with higher numbers. -/
theorem compile_behind (functions : Array Function) (h : compile source = .ok program) :
    ∃ program', compileAfter functions source = .ok program' ∧
      program'.main = ⟨program.main.index + functions.size⟩ ∧
      List.Forall₂ Function.SameButLines program'.functions.toList
        (functions.toList ++ program.functions.toList.map (Function.displaced functions.size)) := by
  -- A build behind other functions is the build without them, displaced.
  have hb : (Builder.complete functions source).displaced #[] =
      (Builder.complete #[] source).displaced (functions.map (Function.displaced 0)) :=
    Builder.complete_displaced rfl (by simp [Builder.start, Build.start_displaced])
  rw [compile, compileAfter] at h
  rw [compileAfter]
  generalize Builder.complete functions source = b at hb ⊢
  generalize Builder.complete #[] source = b' at hb h
  have hcontext : b.context.function.displaced 0 =
      b'.context.function.displaced functions.size := by
    simpa using congrArg (·.context.function) hb
  have hfunctions : b.functions.map (Function.displaced 0) =
      functions.map (Function.displaced 0) ++
        b'.functions.map (Function.displaced functions.size) := by
    simpa using congrArg (·.functions) hb
  have hsize : b.functions.size = b'.functions.size + functions.size := by
    have hsize := congrArg Array.size hfunctions
    simp only [Array.size_map, Array.size_append] at hsize
    omega
  have herrors : b.errors.map CompileError.unplaced = b'.errors.map CompileError.unplaced :=
    congrArg (·.errors) hb
  have hempty := Builder.isEmpty_of_unplaced herrors
  rw [Builder.finish] at h ⊢
  rw [hempty]
  split at h
  · next hnone =>
    obtain rfl := Except.ok.inj h
    rw [if_pos hnone]
    refine ⟨_, rfl, congrArg FunctionId.mk hsize, ?_⟩
    refine forall₂_of_map_eq Function.sameButLines_of_displaced ?_
    have htwice : Function.displaced 0 ∘ Function.displaced functions.size =
        Function.displaced functions.size := funext (Function.displaced_displaced_zero _)
    rw [List.map_append, List.map_map, htwice, ← Array.toList_map, ← Array.toList_map,
      ← Array.toList_map, ← Array.toList_append, Array.map_push, Array.map_push, hfunctions,
      hcontext, Array.append_push]
  · cases h

end Program

end ScriptVM
