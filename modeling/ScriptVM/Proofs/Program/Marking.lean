/-
# Which locals become captured

A local is marked as captured while a function inside is being read, long before the instruction
that makes a closure of that function is appended.  What is said here ties the two: between two
steps of one function its marks are exactly those of the closures appended so far, and the marks of
a function around are exactly those of what the next function in captures (`Around`).

`Tidy` is what holds of a builder between two steps.  `Stretch` is what a clean stretch of steps in
one function does: which code it appends, and that just the locals that this code captures become
marked.  Stretches are put together by `Stretch.append`; a `Passage` also leaves the classes around.
-/
import ScriptVM.Proofs.Program.Functions
import ScriptVM.Proofs.Program.Lexical

namespace ScriptVM

/-! ## Marks -/

/-- The locals once those in some slots are captured. -/
def markSlots (taken : Nat → Bool) : List Local → List Local
  | [] => []
  | l :: rest =>
    { l with captured := l.captured || taken rest.length } :: markSlots taken rest

/-- Marking adds no locals and removes none. -/
@[simp] theorem length_markSlots (taken : Nat → Bool) (locals : List Local) :
    (markSlots taken locals).length = locals.length := by
  induction locals with
  | nil => rfl
  | cons l rest ih => rw [markSlots, List.length_cons, List.length_cons, ih]

/-- Only the slots that there are matter. -/
theorem markSlots_congr {taken taken' : Nat → Bool} {locals : List Local}
    (h : ∀ i < locals.length, taken i = taken' i) :
    markSlots taken locals = markSlots taken' locals := by
  induction locals with
  | nil => rfl
  | cons l rest ih =>
    rw [markSlots, markSlots, h rest.length (by simp), ih]
    intro i hi
    apply h
    rw [List.length_cons]
    omega

/-- Marking twice marks what either marks. -/
theorem markSlots_markSlots (taken taken' : Nat → Bool) (locals : List Local) :
    markSlots taken' (markSlots taken locals) =
      markSlots (fun i => taken i || taken' i) locals := by
  induction locals with
  | nil => rfl
  | cons l rest ih =>
    rw [markSlots, markSlots, markSlots, ih, length_markSlots, Bool.or_assoc]

/-- Where no slot is taken, nothing becomes marked. -/
@[simp] theorem markSlots_false (locals : List Local) :
    markSlots (fun _ => false) locals = locals := by
  induction locals with
  | nil => rfl
  | cons l rest ih => rw [markSlots, ih, Bool.or_false]

/-- Capturing the local in a slot marks that slot alone. -/
theorem captureSlot_eq_markSlots (slot : Nat) (locals : List Local) :
    FunctionContext.captureSlot slot locals = markSlots (fun i => i == slot) locals := by
  induction locals with
  | nil => rfl
  | cons l rest ih =>
    rw [FunctionContext.captureSlot, markSlots]
    by_cases h : rest.length = slot
    · have hbelow : ∀ i < rest.length, (i == slot) = (fun _ => false) i := by
        intro i hi
        simp only [beq_eq_false_iff_ne]
        omega
      rw [if_pos h, markSlots_congr hbelow, markSlots_false, beq_iff_eq.2 h, Bool.or_true]
    · rw [if_neg h, ih, beq_eq_false_iff_ne.2 h, Bool.or_false]

/-- A marked local is a local, marked or not. -/
theorem exists_of_mem_markSlots {taken : Nat → Bool} {locals : List Local} {l' : Local}
    (h : l' ∈ markSlots taken locals) : ∃ l ∈ locals, l.Raised l' := by
  induction locals with
  | nil => simp [markSlots] at h
  | cons l rest ih =>
    rw [markSlots] at h
    rcases List.mem_cons.1 h with rfl | h
    · refine ⟨l, List.mem_cons_self, ⟨rfl, rfl, rfl, ?_⟩⟩
      intro hl
      simp [hl]
    · obtain ⟨l₀, hl₀, hraised⟩ := ih h
      exact ⟨l₀, List.mem_cons_of_mem _ hl₀, hraised⟩

/-- Whether a local of the next function out is among captured variables. -/
def takesSlot (captures : Array Capture) (slot : Nat) : Bool :=
  captures.toList.any fun c => c.isLocal && c.index.toNat == slot

/-- A slot that is taken stays taken. -/
theorem takesSlot_mono {captures captures' : Array Capture}
    (h : captures.toList <+: captures'.toList) {slot : Nat}
    (hslot : takesSlot captures slot = true) :
    takesSlot captures' slot = true := by
  rw [takesSlot, List.any_eq_true] at hslot ⊢
  obtain ⟨c, hc, hlocal⟩ := hslot
  exact ⟨c, h.subset hc, hlocal⟩

/-- What fewer variables mark, more variables mark too. -/
theorem markSlots_takesSlot_mono {captures captures' : Array Capture}
    (h : captures.toList <+: captures'.toList) (locals : List Local) :
    markSlots (takesSlot captures') (markSlots (takesSlot captures) locals) =
      markSlots (takesSlot captures') locals := by
  rw [markSlots_markSlots]
  apply markSlots_congr
  intro i _
  cases htaken : takesSlot captures i with
  | false => rfl
  | true => rw [takesSlot_mono h htaken, Bool.true_or]

theorem takesSlot_push (captures : Array Capture) (c : Capture) (slot : Nat) :
    takesSlot (captures.push c) slot =
      (takesSlot captures slot || (c.isLocal && c.index.toNat == slot)) := by
  simp [takesSlot]

/-! ## The functions around -/

/-- What functions around one another become while the function inside comes to capture some
variables: each has just the locals marked that the next one in captures. -/
inductive Around : Array Capture → List FunctionContext → List FunctionContext → Prop where
  /-- There is no function around. -/
  | nil (captures : Array Capture) : Around captures [] []
  /-- The next function out, and those around it. -/
  | cons {captures : Array Capture} {c c' : FunctionContext} {around around' : List FunctionContext}
      (hfunction : c'.function = c.function) (hdepth : c'.depth = c.depth)
      (hlocals : c'.locals = markSlots (takesSlot captures) c.locals)
      (hcaptures : c.captures.toList <+: c'.captures.toList)
      (hnext : Around c'.captures around around') : Around captures (c :: around) (c' :: around')

namespace Around

variable {captures captures' : Array Capture} {A B C : List FunctionContext}

/-- What functions around become in two steps, they become in one. -/
theorem trans (h₁ : Around captures A B) (h₂ : Around captures' B C)
    (hle : captures.toList <+: captures'.toList) : Around captures' A C := by
  induction h₁ generalizing captures' C with
  | nil => exact h₂
  | cons hfunction hdepth hlocals hcaptures _ ih =>
    cases h₂ with
    | cons hfunction' hdepth' hlocals' hcaptures' hnext' =>
      refine .cons (hfunction'.trans hfunction) (hdepth'.trans hdepth) ?_
        (hcaptures.trans hcaptures') (ih hnext' hcaptures')
      rw [hlocals', hlocals, markSlots_takesSlot_mono hle]

/-- What the functions have become is marked for good. -/
theorem settled (h : Around captures A B) : Around captures B B := by
  induction h with
  | nil => exact .nil _
  | cons _ _ hlocals _ _ ih =>
    refine .cons rfl rfl ?_ (List.prefix_refl _) ih
    rw [hlocals, markSlots_takesSlot_mono (List.prefix_refl _)]

end Around

/-- Looking a name up marks the locals that come to be captured. -/
theorem around_resolveCapture {name : String} {context context' : FunctionContext}
    {around around' : List FunctionContext} {i : UInt8}
    (horderly : ∀ c ∈ context :: around, c.Orderly)
    (hsettled : Around context.captures around around)
    (h : resolveCapture name context around = ⟨.ok (some i), context', around'⟩) :
    Around context'.captures around around' ∧
      (context' = context ∨ ∃ c,
        context' = { context with captures := context.captures.push c }) := by
  induction around generalizing context context' around' i with
  | nil => simp [resolveCapture] at h
  | cons outer rest ih =>
    have hcontext : context.Orderly := horderly _ List.mem_cons_self
    have hrest : ∀ c ∈ outer :: rest, c.Orderly := fun c hc =>
      horderly c (List.mem_cons_of_mem _ hc)
    cases hsettled with
    | cons _ _ hlocals _ hnext =>
      rcases resolveCapture_cons_some h with
        ⟨slot, -, hadd, rfl⟩ | ⟨j, c₁, around₁, -, hfound, hadd, rfl⟩
      · -- The local of the next function out is marked, and captured here.
        obtain ⟨hget, hcases, -⟩ := FunctionContext.addCapture_ok hadd hcontext.captures
        have htaken : ∀ i, takesSlot context'.captures i =
            (takesSlot context.captures i || i == slot.toNat) := by
          intro i
          rcases hcases with rfl | rfl
          · by_cases hslot : i = slot.toNat
            · have hmem : (⟨slot, true⟩ : Capture) ∈ context'.captures.toList := by
                rw [Array.mem_toList_iff]
                exact Array.mem_of_getElem? hget
              have : takesSlot context'.captures i = true := by
                rw [takesSlot, List.any_eq_true]
                exact ⟨_, hmem, by simp [hslot]⟩
              rw [this, Bool.true_or]
            · simp [hslot]
          · rw [takesSlot_push, Bool.true_and, Bool.beq_comm]
        refine ⟨.cons rfl rfl ?_ (List.prefix_refl _) hnext, ?_⟩
        · rw [FunctionContext.markCaptured, captureSlot_eq_markSlots]
          nth_rewrite 1 [hlocals]
          rw [markSlots_markSlots]
          exact markSlots_congr fun i _ => (htaken i).symm
        · exact hcases.imp_right fun h => ⟨_, h⟩
      · obtain ⟨haround, hgrows⟩ := ih hrest hnext hfound
        obtain ⟨-, hcases, -⟩ := FunctionContext.addCapture_ok hadd hcontext.captures
        -- What is captured here is no local of the next function out.
        have htaken : takesSlot context'.captures = takesSlot context.captures := by
          funext i
          rcases hcases with rfl | rfl
          · rfl
          · rw [takesSlot_push, Bool.false_and, Bool.or_false]
        have houter : c₁.function = outer.function ∧ c₁.depth = outer.depth ∧
            c₁.locals = outer.locals ∧ outer.captures.toList <+: c₁.captures.toList := by
          rcases hgrows with rfl | ⟨c, rfl⟩
          · exact ⟨rfl, rfl, rfl, List.prefix_refl _⟩
          · exact ⟨rfl, rfl, rfl, by simp⟩
        refine ⟨.cons houter.1 houter.2.1 ?_ houter.2.2.2 haround, ?_⟩
        · rw [houter.2.2.1, htaken]
          exact hlocals
        · exact hcases.imp_right fun h => ⟨_, h⟩

/-! ## Builders -/

/-- What holds of a builder between two steps. -/
structure Tidy (b : Builder) : Prop where
  /-- The functions are within their limits. -/
  orderly : ∀ c ∈ b.contexts, c.Orderly
  /-- No local is declared deeper than the current block of its function. -/
  depths : ∀ c ∈ b.contexts, ∀ l ∈ c.locals, l.depth ≤ c.depth
  /-- The locals that are captured are marked. -/
  settled : Around b.context.captures b.enclosing b.enclosing

theorem Tidy.context {b : Builder} (h : Tidy b) : b.context.Orderly :=
  h.orderly b.context List.mem_cons_self

/-- A tidy builder with another function at hand, which captures the same. -/
theorem Tidy.withContext {b : Builder} (h : Tidy b) {c : FunctionContext} (horderly : c.Orderly)
    (hdepths : ∀ l ∈ c.locals, l.depth ≤ c.depth) (hcaptures : c.captures = b.context.captures) :
    Tidy { b with context := c } where
  orderly := by
    intro d hd
    rcases List.mem_cons.1 hd with rfl | hd
    · exact horderly
    · exact h.orderly d (List.mem_cons_of_mem _ hd)
  depths := by
    intro d hd
    rcases List.mem_cons.1 hd with rfl | hd
    · exact hdepths
    · exact h.depths d (List.mem_cons_of_mem _ hd)
  settled := by
    show Around c.captures b.enclosing b.enclosing
    rw [hcaptures]
    exact h.settled

/-- What any clean steps in one function do to what is around it. -/
structure Carries (b b' : Builder) : Prop where
  /-- The builder is tidy. -/
  tidy : Tidy b'
  /-- The finished functions stay. -/
  functions : b.functions.toList <+: b'.functions.toList
  /-- The function at hand may capture more. -/
  captures : b.context.captures.toList <+: b'.context.captures.toList
  /-- The functions around have just those locals marked that are captured. -/
  around : Around b'.context.captures b.enclosing b'.enclosing

theorem Carries.refl {b : Builder} (h : Tidy b) : Carries b b :=
  ⟨h, List.prefix_refl _, List.prefix_refl _, h.settled⟩

theorem Carries.trans {b b₁ b₂ : Builder} (h₁ : Carries b b₁) (h₂ : Carries b₁ b₂) :
    Carries b b₂ :=
  ⟨h₂.tidy, h₁.functions.trans h₂.functions, h₁.captures.trans h₂.captures,
    h₁.around.trans h₂.around h₂.captures⟩

/-- Other code, locals or depth of the function at hand leave what is around it. -/
theorem Carries.withContext {b : Builder} (h : Tidy b) {c : FunctionContext} (horderly : c.Orderly)
    (hdepths : ∀ l ∈ c.locals, l.depth ≤ c.depth) (hcaptures : c.captures = b.context.captures) :
    Carries b { b with context := c } where
  tidy := h.withContext horderly hdepths hcaptures
  functions := List.prefix_refl _
  captures := hcaptures ▸ List.prefix_refl _
  around := by
    show Around c.captures b.enclosing b.enclosing
    rw [hcaptures]
    exact h.settled

/-- Constants within the limit leave what is around. -/
theorem Carries.withChunk {b : Builder} (h : Tidy b) {chunk : Chunk}
    (hsize : chunk.constants.size ≤ Chunk.constantLimit) : Carries b (b.withChunk chunk) := by
  have hcontext := h.context
  exact Carries.withContext h ⟨hcontext.locals, hcontext.captures, hsize, hcontext.nodup⟩
    (h.depths b.context List.mem_cons_self) rfl

/-- Locals within the limit leave what is around. -/
theorem Carries.withLocals {b : Builder} (h : Tidy b) {locals : List Local}
    (hlength : locals.length ≤ FunctionContext.localLimit)
    (hdepths : ∀ l ∈ locals, l.depth ≤ b.context.depth) : Carries b (b.withLocals locals) := by
  have hcontext := h.context
  exact Carries.withContext h ⟨hlength, hcontext.captures, hcontext.constants, hcontext.nodup⟩
    hdepths rfl

/-! ## Closures in code -/

/-- Bytes in pairs. -/
def bytePairs : List UInt8 → List (UInt8 × UInt8)
  | x :: y :: rest => (x, y) :: bytePairs rest
  | _ => []

/-- The bytes of captured variables, read in pairs. -/
theorem bytePairs_captureBytes (captures : List Capture) :
    bytePairs (captureBytes captures) =
      captures.map fun c => (if c.isLocal then 1 else 0, c.index) := by
  induction captures with
  | nil => rfl
  | cons c rest ih =>
    rw [List.map_cons, ← ih]
    rfl

/-- Whether an instruction makes a closure that captures the local in a slot: whether the pair of
one and the slot is behind the index of the function. -/
def Instruction.takesSlot (slot : Nat) (i : Instruction) : Bool :=
  i.op == .closure && (bytePairs i.operands.tail).any fun p => p.1 == 1 && p.2.toNat == slot

/-- Whether some instruction of a piece of code makes a closure that captures the local in a
slot. -/
def Code.takesSlot (code : Code) (slot : Nat) : Bool :=
  code.any (·.takesSlot slot)

@[simp] theorem Code.takesSlot_nil (slot : Nat) : Code.takesSlot [] slot = false := rfl

@[simp] theorem Code.takesSlot_append (a b : Code) (slot : Nat) :
    Code.takesSlot (a ++ b) slot = (a.takesSlot slot || b.takesSlot slot) := by
  simp [takesSlot]

/-- Code that makes no closures. -/
def Code.Open (code : Code) : Prop :=
  ∀ i ∈ code, i.op ≠ .closure

/-- Code that makes no closures captures nothing. -/
theorem Code.Open.takesSlot {code : Code} (h : code.Open) (slot : Nat) :
    code.takesSlot slot = false := by
  rw [Code.takesSlot, List.any_eq_false]
  intro i hi
  simp [Instruction.takesSlot, h i hi]

theorem Code.open_nil : Code.Open [] := by
  simp [Code.Open]

/-- An instruction in front that makes no closure keeps the code open. -/
theorem Code.Open.cons {i : Instruction} {code : Code} (hi : i.op ≠ .closure) (h : code.Open) :
    Code.Open (i :: code) := by
  intro j hj
  rcases List.mem_cons.1 hj with rfl | hj
  · exact hi
  · exact h j hj

/-- Two pieces of code that make no closures make none together. -/
theorem Code.Open.append {a b : Code} (ha : a.Open) (hb : b.Open) : Code.Open (a ++ b) := by
  intro i hi
  rcases List.mem_append.1 hi with hi | hi
  · exact ha i hi
  · exact hb i hi

/-- An instruction that makes a closure captures the locals among the variables of that closure. -/
theorem takesSlot_closure (index : UInt8) (captures : Array Capture) (line slot : Nat) :
    Code.takesSlot [⟨.closure, index :: captureBytes captures.toList, line⟩] slot =
      ScriptVM.takesSlot captures slot := by
  simp only [Code.takesSlot, Instruction.takesSlot, List.any_cons, List.any_nil, Bool.or_false,
    beq_self_eq_true, Bool.true_and, List.tail_cons, bytePairs_captureBytes, List.any_map,
    ScriptVM.takesSlot]
  congr 1
  funext c
  cases hlocal : c.isLocal <;> simp [hlocal]

/-- An instruction has the operand bytes that its opcode asks for; one that makes a closure has the
index of a function, and a pair of bytes for each variable that this function captures. -/
def Instruction.Formed (functions : Array Function) (constants : Array Value)
    (i : Instruction) : Prop :=
  if i.op = .closure then
    ∃ index rest id f, i.operands = index :: rest ∧
      constants[index.toNat]? = some (.functionRef id) ∧ functions[id.index]? = some f ∧
      rest.length = 2 * f.captureCount
  else i.operands.length = i.op.operandLength

/-- An instruction stays well formed while there come to be more functions and constants. -/
theorem Instruction.Formed.mono {functions functions' : Array Function}
    {constants constants' : Array Value} {i : Instruction} (h : i.Formed functions constants)
    (hf : functions.toList <+: functions'.toList) (hc : constants.toList <+: constants'.toList) :
    i.Formed functions' constants' := by
  rw [Formed] at h ⊢
  split at h
  · next hop =>
    obtain ⟨index, rest, id, f, hoperands, hid, hfunction, hlength⟩ := h
    rw [if_pos hop]
    refine ⟨index, rest, id, f, hoperands, ?_, ?_, hlength⟩
    · rw [← Array.getElem?_toList] at hid ⊢
      exact getElem?_of_isPrefix hc hid
    · rw [← Array.getElem?_toList] at hfunction ⊢
      exact getElem?_of_isPrefix hf hfunction
  · next hop => rwa [if_neg hop]

/-! ## Stretches -/

/-- **What a clean stretch of steps in one function does.**  The locals `new` are declared before
any code is appended; then just the locals that the code captures become marked. -/
structure Stretch (b : Builder) (new : List Local) (code : Code) (b' : Builder) : Prop
    extends Carries b b' where
  /-- Code is appended. -/
  appends : b.chunk.Appends b'.chunk code
  /-- It consists of instructions. -/
  formed : ∀ i ∈ code, i.Formed b'.functions b'.chunk.constants
  /-- The constants stay. -/
  constants : b.chunk.constants.toList <+: b'.chunk.constants.toList
  /-- The block is as deep as before. -/
  depth : b'.context.depth = b.context.depth
  /-- The locals that the code captures are marked. -/
  locals : b'.context.locals = markSlots code.takesSlot (new ++ b.context.locals)

namespace Stretch

variable {b b₁ b₂ : Builder} {new : List Local} {code c₁ c₂ : Code}

/-- A tidy builder has an empty stretch to itself. -/
theorem refl (h : Tidy b) : Stretch b [] [] b :=
  { Carries.refl h with
    appends := .refl _
    formed := by simp
    constants := List.prefix_refl _
    depth := rfl
    locals := (markSlots_false _).symm }

theorem formed_append {old : List Local} (h₁ : Stretch b old c₁ b₁) (h₂ : Stretch b₁ new c₂ b₂) :
    ∀ i ∈ c₁ ++ c₂, i.Formed b₂.functions b₂.chunk.constants := by
  intro i hi
  rcases List.mem_append.1 hi with hi | hi
  · exact (h₁.formed i hi).mono h₂.functions h₂.constants
  · exact h₂.formed i hi

/-- One stretch after another. -/
theorem append (h₁ : Stretch b new c₁ b₁) (h₂ : Stretch b₁ [] c₂ b₂) :
    Stretch b new (c₁ ++ c₂) b₂ :=
  { h₁.toCarries.trans h₂.toCarries with
    appends := h₁.appends.trans h₂.appends
    formed := h₁.formed_append h₂
    constants := h₁.constants.trans h₂.constants
    depth := h₂.depth.trans h₁.depth
    locals := by
      rw [h₂.locals, List.nil_append, h₁.locals, markSlots_markSlots]
      exact markSlots_congr fun i _ => (Code.takesSlot_append c₁ c₂ i).symm }

/-- Code without closures leaves the locals. -/
theorem locals_eq (h : Stretch b [] code b₁) (hopen : code.Open) :
    b₁.context.locals = b.context.locals := by
  rw [h.locals, List.nil_append]
  have : code.takesSlot = fun _ => false := funext hopen.takesSlot
  rw [this, markSlots_false]

/-- Code without closures may come before the declarations of a stretch. -/
theorem prepend (h₁ : Stretch b [] c₁ b₁) (hopen : c₁.Open) (h₂ : Stretch b₁ new c₂ b₂) :
    Stretch b new (c₁ ++ c₂) b₂ :=
  { h₁.toCarries.trans h₂.toCarries with
    appends := h₁.appends.trans h₂.appends
    formed := h₁.formed_append h₂
    constants := h₁.constants.trans h₂.constants
    depth := h₂.depth.trans h₁.depth
    locals := by
      rw [h₂.locals, h₁.locals_eq hopen]
      apply markSlots_congr
      intro i _
      rw [Code.takesSlot_append, hopen.takesSlot, Bool.false_or] }

/-- Steps that change nothing but tokens, complaints and classes. -/
theorem of_context (h : Tidy b) (hcontext : b₁.context = b.context)
    (henclosing : b₁.enclosing = b.enclosing) (hfunctions : b₁.functions = b.functions) :
    Stretch b [] [] b₁ := by
  have hcontexts : b₁.contexts = b.contexts := by
    rw [Builder.contexts, Builder.contexts, hcontext, henclosing]
  have hchunk : b₁.chunk = b.chunk := by rw [Builder.chunk, Builder.chunk, hcontext]
  exact {
    tidy := ⟨hcontexts ▸ h.orderly, hcontexts ▸ h.depths, by
      rw [hcontext, henclosing]
      exact h.settled⟩
    functions := hfunctions ▸ List.prefix_refl _
    captures := hcontext ▸ List.prefix_refl _
    around := by
      rw [hcontext, henclosing]
      exact h.settled
    appends := hchunk ▸ .refl _
    formed := by simp
    constants := hchunk ▸ List.prefix_refl _
    depth := congrArg FunctionContext.depth hcontext
    locals := by
      rw [hcontext]
      exact (markSlots_false _).symm }

end Stretch

/-- A stretch that leaves the classes around. -/
structure Passage (b : Builder) (new : List Local) (code : Code) (b' : Builder) : Prop
    extends Stretch b new code b' where
  /-- The classes are those of before. -/
  classes : b'.classes = b.classes

namespace Passage

variable {b b₁ b₂ : Builder} {new : List Local} {code c₁ c₂ : Code}

theorem refl (h : Tidy b) : Passage b [] [] b :=
  ⟨.refl h, rfl⟩

/-- One passage after another. -/
theorem append (h₁ : Passage b new c₁ b₁) (h₂ : Passage b₁ [] c₂ b₂) :
    Passage b new (c₁ ++ c₂) b₂ :=
  ⟨h₁.toStretch.append h₂.toStretch, h₂.classes.trans h₁.classes⟩

/-- Code without closures may come before the declarations of a passage. -/
theorem prepend (h₁ : Passage b [] c₁ b₁) (hopen : c₁.Open) (h₂ : Passage b₁ new c₂ b₂) :
    Passage b new (c₁ ++ c₂) b₂ :=
  ⟨h₁.toStretch.prepend hopen h₂.toStretch, h₂.classes.trans h₁.classes⟩

theorem take (h : Tidy b) : Passage b [] [] b.take :=
  ⟨.of_context h rfl rfl rfl, rfl⟩

/-- The function at hand gets other code. -/
theorem withChunk {chunk : Chunk} (h : Tidy b) (happends : b.chunk.Appends chunk code)
    (hconstants : b.chunk.constants.toList <+: chunk.constants.toList)
    (hsize : chunk.constants.size ≤ Chunk.constantLimit)
    (hformed : ∀ i ∈ code, i.Formed b.functions chunk.constants) (hopen : code.Open) :
    Passage b [] code (b.withChunk chunk) :=
  { Carries.withChunk h hsize with
    appends := happends
    formed := hformed
    constants := hconstants
    depth := rfl
    classes := rfl
    locals := by
      show b.context.locals = _
      have : code.takesSlot = fun _ => false := funext hopen.takesSlot
      rw [this, markSlots_false, List.nil_append] }

/-- An earlier jump is patched. -/
theorem patch {a c : Code} {op : Opcode} {x y : UInt8} {line : Nat} {chunk : Chunk}
    (h : Passage b new (a ++ ⟨op, [x, y], line⟩ :: c) b₁) (hop : op ≠ .closure)
    (hpatch : b₁.chunk.patchJump (b.chunk.size + a.extent) = .ok chunk) :
    Passage b new (a ++ ⟨op, distanceBytes c.extent, line⟩ :: c) (b₁.withChunk chunk) := by
  obtain ⟨-, happends, hconstants⟩ := h.appends.patchJump hpatch
  have hsize : chunk.constants.size ≤ Chunk.constantLimit :=
    hconstants ▸ h.tidy.context.constants
  refine { h.toCarries.trans (Carries.withChunk h.tidy hsize) with
    appends := happends
    formed := ?_
    constants := ?_
    depth := h.depth
    classes := h.classes
    locals := ?_ }
  · intro i hi
    show i.Formed b₁.functions chunk.constants
    rw [hconstants]
    rcases List.mem_append.1 hi with hi | hi
    · exact h.formed i (List.mem_append_left _ hi)
    · rcases List.mem_cons.1 hi with rfl | hi
      · -- The jump has as many operand bytes as before.
        have := h.formed _ (List.mem_append_right a List.mem_cons_self)
        rw [Instruction.Formed, if_neg hop] at this ⊢
        exact this
      · exact h.formed i (List.mem_append_right _ (List.mem_cons_of_mem _ hi))
  · show b.chunk.constants.toList <+: chunk.constants.toList
    rw [hconstants]
    exact h.constants
  · show b₁.context.locals = _
    rw [h.locals]
    apply markSlots_congr
    intro i _
    have hjump : (op == .closure) = false := beq_eq_false_iff_ne.2 hop
    simp only [Code.takesSlot, List.any_append, List.any_cons, Instruction.takesSlot, hjump,
      Bool.false_and]

end Passage

end ScriptVM
