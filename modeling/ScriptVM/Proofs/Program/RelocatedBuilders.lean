/-
# Builders at the start of a script and behind other code

Two builders take the same steps, one at the start of a script and the other behind code that its
script has already (`Builder.Alongside`).  What they build is the same: the same functions, and the
same code of the script, except that a constant of the script may have another index in the other
pool (`Instruction.Pairs`).  Inside a function nothing tells them apart.

The tokens that are left to one of them may end where those that are left to the other go on.  So
two runs are compared up to the point where the other builder takes a token behind the common ones.

`Builder.Passing` is what clean runs of a step from two such builders do; passings are put together
by `Passing.append`, and jumps in them are patched by `Passing.patch`.
-/
import ScriptVM.Proofs.Chunk.Constants
import ScriptVM.Proofs.Imperative.Literals
import ScriptVM.Proofs.Program.Marking

namespace ScriptVM

/-! ## Constants of compiled code -/

/-- A value that compiled code can have among its constants. -/
def Value.Compiled (v : Value) : Prop :=
  v.Written ∨ ∃ id, v = .functionRef id

/-- A constant of compiled code stands for itself only. -/
theorem Value.Compiled.eq_of_sameConstant {v w : Value} (hv : v.Compiled) (hw : w.Compiled)
    (h : v.sameConstant w = true) : v = w := by
  rcases hw with hw | ⟨id, rfl⟩
  · rcases hv with hv | ⟨id, rfl⟩
    · exact Value.eq_of_sameConstant hv hw h
    · cases w <;> first | exact hw.elim | simp [Value.sameConstant, Value.equals] at h
  · exact Value.eq_of_sameConstant_functionRef h

namespace Chunk

/-- A chunk with the constants of compiled code. -/
structure Stocked (chunk : Chunk) : Prop where
  /-- The constants can be numbered. -/
  size_le : chunk.constants.size ≤ constantLimit
  /-- Compiled code can have them. -/
  compiled : ∀ v ∈ chunk.constants.toList, v.Compiled

variable {chunk chunk' : Chunk} {v : Value} {index : UInt8}

theorem Stocked.of_constants_eq (h : chunk.Stocked) (heq : chunk'.constants = chunk.constants) :
    chunk'.Stocked :=
  ⟨heq ▸ h.size_le, heq ▸ h.compiled⟩

/-- A constant that is added is the one that its index names. -/
theorem Stocked.addConstant (h : chunk.Stocked) (hv : v.Compiled)
    (hadd : chunk.addConstant v = (some index, chunk')) :
    chunk'.Stocked ∧ chunk'.constants[index.toNat]? = some v := by
  rcases addConstant_some_cases hadd with ⟨i, hlt, hsame, rfl, rfl⟩ | ⟨hroom, rfl, rfl⟩
  · have heq := (h.compiled _ (Array.getElem_mem_toList hlt)).eq_of_sameConstant hv hsame
    refine ⟨h, ?_⟩
    rw [UInt8.toNat_ofNat_of_lt' (Nat.lt_of_lt_of_le hlt h.size_le), ← heq]
    exact Array.getElem?_eq_getElem hlt
  · refine ⟨⟨?_, fun u hu => ?_⟩, ?_⟩
    · rw [Array.size_push]
      exact hroom
    · rw [Array.toList_push, List.mem_append, List.mem_singleton] at hu
      exact hu.elim (h.compiled u) fun hu => hu ▸ hv
    · rw [UInt8.toNat_ofNat_of_lt' hroom]
      simp

end Chunk

/-! ## Instructions for two pools of constants -/

/-- Whether the operands of an instruction start with the index of a constant. -/
def Opcode.refers (op : Opcode) : Bool :=
  match op.operands with
  | .constant | .invocation | .captures => true
  | .none | .byte | .forward | .backward => false

/-- The operands of an instruction for two pools are the same, except that a constant may have
another index in the other pool. -/
inductive Opcode.Renumbers (R : Value → Value → Prop) (K K' : Array Value) (op : Opcode) :
    List UInt8 → List UInt8 → Prop
  | same {operands : List UInt8} (h : op.refers = false) : Renumbers R K K' op operands operands
  | constant {c c' : UInt8} {v v' : Value} {operands : List UInt8} (h : op.refers = true)
      (hv : K[c.toNat]? = some v) (hv' : K'[c'.toNat]? = some v') (hsame : R v v') :
      Renumbers R K K' op (c :: operands) (c' :: operands)

namespace Opcode.Renumbers

variable {R : Value → Value → Prop} {K K' L L' : Array Value} {op : Opcode}
  {operands operands' : List UInt8}

theorem length_eq (h : op.Renumbers R K K' operands operands') :
    operands.length = operands'.length := by
  cases h <;> rfl

/-- Operands stay corresponding while the pools grow. -/
theorem mono (h : op.Renumbers R K K' operands operands') (hK : K.toList <+: L.toList)
    (hK' : K'.toList <+: L'.toList) : op.Renumbers R L L' operands operands' := by
  cases h with
  | same h => exact .same h
  | @constant _ _ v v' _ h hv hv' hsame =>
    rw [← Array.getElem?_toList] at hv hv'
    refine .constant (v := v) h ?_ ?_ hsame <;> rw [← Array.getElem?_toList]
    · exact getElem?_of_isPrefix hK hv
    · exact getElem?_of_isPrefix hK' hv'

end Opcode.Renumbers

/-- An instruction that a script can have in front of its end: it does not leave the call, and does
not look at the lowest slot. -/
structure Instruction.Spares (i : Instruction) : Prop where
  /-- It does not leave the call. -/
  stays : i.op ≠ .ret
  /-- It neither reads nor assigns the lowest slot. -/
  names : i.op = .getLocal ∨ i.op = .setLocal → i.operands ≠ [0]
  /-- It makes no closure that captures the lowest slot. -/
  captures : i.takesSlot 0 = false

/-- Two instructions of scripts that do the same. -/
structure Instruction.Pairs (functions : Array Function) (K K' : Array Value) (i i' : Instruction) :
    Prop where
  /-- They have the same opcode. -/
  op : i'.op = i.op
  /-- Their operands are the same. -/
  operands : i.op.Renumbers (· = ·) K K' i.operands i'.operands
  /-- The first one has the operands that its opcode asks for. -/
  formed : i.Formed functions K
  /-- It can stand in front of the end of a script. -/
  spares : i.Spares

namespace Instruction.Pairs

variable {functions functions' : Array Function} {K K' L L' : Array Value} {i i' : Instruction}
  {op : Opcode} {operands : List UInt8} {line : Nat}

theorem mono (h : i.Pairs functions K K' i') (hf : functions.toList <+: functions'.toList)
    (hK : K.toList <+: L.toList) (hK' : K'.toList <+: L'.toList) : i.Pairs functions' L L' i' :=
  ⟨h.op, h.operands.mono hK hK', h.formed.mono hf hK, h.spares⟩

/-- An instruction that refers to no constant. -/
theorem plain (hop : op.refers = false) (hret : op ≠ .ret)
    (hnames : op = .getLocal ∨ op = .setLocal → operands ≠ [0])
    (hlength : operands.length = op.operandLength) :
    Instruction.Pairs functions K K' ⟨op, operands, line⟩ ⟨op, operands, line⟩ := by
  have hclosure : op ≠ .closure := by
    rintro rfl
    cases hop
  refine ⟨rfl, .same hop, ?_, hret, hnames, ?_⟩
  · rw [Instruction.Formed, if_neg hclosure]
    exact hlength
  · simp [Instruction.takesSlot, hclosure]

/-- An instruction with a constant. -/
theorem constant {c c' : UInt8} {v : Value} (hop : op.refers = true) (hclosure : op ≠ .closure)
    (hv : K[c.toNat]? = some v) (hv' : K'[c'.toNat]? = some v)
    (hlength : operands.length + 1 = op.operandLength) :
    Instruction.Pairs functions K K' ⟨op, c :: operands, line⟩ ⟨op, c' :: operands, line⟩ := by
  refine ⟨rfl, .constant hop hv hv' rfl, ?_, ?_, ?_, ?_⟩
  · rw [Instruction.Formed, if_neg hclosure]
    exact hlength
  · rintro rfl
    cases hop
  · rintro (rfl | rfl) <;> cases hop
  · simp [Instruction.takesSlot, hclosure]

end Instruction.Pairs

/-- Two instructions of the functions at hand of two builders: in a script they do the same, and
inside of a function they are the same. -/
def Instruction.Twins (script : Prop) (functions : Array Function) (K K' : Array Value)
    (i i' : Instruction) : Prop :=
  (script → i.Pairs functions K K' i') ∧ (¬script → i' = i)

/-- Corresponding instructions have as many operand bytes. -/
theorem Instruction.Twins.length_eq {script : Prop} {functions : Array Function}
    {K K' : Array Value} {i i' : Instruction} (h : i.Twins script functions K K' i') :
    i.operands.length = i'.operands.length := by
  by_cases hscript : script
  · exact (h.1 hscript).operands.length_eq
  · rw [h.2 hscript]

/-- The extents of corresponding pieces of code are the same. -/
theorem Code.extent_eq_of_forall₂ {R : Instruction → Instruction → Prop} {a b : Code}
    (h : List.Forall₂ R a b) (hR : ∀ i j, R i j → i.operands.length = j.operands.length) :
    Code.extent a = Code.extent b := by
  induction h with
  | nil => rfl
  | cons hij _ ih =>
    rw [extent_cons, extent_cons, ih, Instruction.size, Instruction.size, hR _ _ hij]

/-- Two lists that are related are cut alike at the same place. -/
theorem forall₂_append_cons {α β : Type} {R : α → β → Prop} {xs ys : List α} {xs' ys' : List β}
    {x : α} {x' : β} (h : List.Forall₂ R (xs ++ x :: ys) (xs' ++ x' :: ys'))
    (hlength : xs.length = xs'.length) :
    List.Forall₂ R xs xs' ∧ R x x' ∧ List.Forall₂ R ys ys' := by
  induction xs generalizing xs' with
  | nil =>
    obtain rfl := List.eq_nil_of_length_eq_zero hlength.symm
    obtain ⟨hx, hys⟩ := List.forall₂_cons.1 h
    exact ⟨.nil, hx, hys⟩
  | cons z xs ih =>
    cases xs' with
    | nil => cases hlength
    | cons z' xs' =>
      obtain ⟨hz, hrest⟩ := List.forall₂_cons.1 h
      obtain ⟨hxs, hx, hys⟩ := ih hrest (Nat.succ.inj hlength)
      exact ⟨.cons hz hxs, hx, hys⟩

/-- Two chunks have corresponding pieces of code appended. -/
structure Chunk.Twins (script : Prop) (functions : Array Function) (k k' k₁ k₁' : Chunk)
    (a a' : Code) : Prop where
  /-- The first piece is appended to the first chunk. -/
  appends : k.Appends k₁ a
  /-- The second piece is appended to the second chunk. -/
  appends' : k'.Appends k₁' a'
  /-- The constants of the first chunk stay. -/
  constants : k.constants.toList <+: k₁.constants.toList
  /-- The constants of the second chunk stay. -/
  constants' : k'.constants.toList <+: k₁'.constants.toList
  /-- The pieces correspond to each other. -/
  code : List.Forall₂ (Instruction.Twins script functions k₁.constants k₁'.constants) a a'

namespace Chunk.Twins

variable {script : Prop} {functions functions' : Array Function} {k k' k₁ k₁' k₂ k₂' : Chunk}
  {a a' d d' : Code} {i i' : Instruction}

theorem refl (script : Prop) (functions : Array Function) (k k' : Chunk) :
    Chunk.Twins script functions k k' k k' [] [] :=
  ⟨.refl _, .refl _, List.prefix_refl _, List.prefix_refl _, .nil⟩

/-- Corresponding pieces of code follow on corresponding pieces. -/
theorem append (h : Chunk.Twins script functions k k' k₁ k₁' a a')
    (h' : Chunk.Twins script functions' k₁ k₁' k₂ k₂' d d')
    (hf : functions.toList <+: functions'.toList) :
    Chunk.Twins script functions' k k' k₂ k₂' (a ++ d) (a' ++ d') where
  appends := h.appends.trans h'.appends
  appends' := h.appends'.trans h'.appends'
  constants := h.constants.trans h'.constants
  constants' := h.constants'.trans h'.constants'
  code := by
    refine List.rel_append (h.code.imp fun _ _ hi => ?_) h'.code
    exact ⟨fun hscript => (hi.1 hscript).mono hf h'.constants h'.constants', hi.2⟩

/-- One instruction is appended to each. -/
theorem single (h : k.Appends k₁ [i]) (h' : k'.Appends k₁' [i'])
    (hconstants : k₁.constants = k.constants) (hconstants' : k₁'.constants = k'.constants)
    (hi : i.Twins script functions k.constants k'.constants i') :
    Chunk.Twins script functions k k' k₁ k₁' [i] [i'] where
  appends := h
  appends' := h'
  constants := hconstants ▸ List.prefix_refl _
  constants' := hconstants' ▸ List.prefix_refl _
  code := by
    rw [hconstants, hconstants']
    exact .cons hi .nil

theorem extent_eq (h : Chunk.Twins script functions k k' k₁ k₁' a a') : a.extent = a'.extent :=
  Code.extent_eq_of_forall₂ h.code fun _ _ hi => hi.length_eq

/-- Corresponding jumps are patched alike. -/
theorem patch {op : Opcode} {x y : UInt8} {line : Nat} (hop : op.operands = .forward)
    (h : Chunk.Twins script functions k k' k₁ k₁' (a ++ ⟨op, [x, y], line⟩ :: d)
      (a' ++ ⟨op, [x, y], line⟩ :: d')) (hlength : a.length = a'.length)
    (hpatch : k₁.patchJump (k.size + a.extent) = .ok k₂)
    (hpatch' : k₁'.patchJump (k'.size + a'.extent) = .ok k₂') :
    Chunk.Twins script functions k k' k₂ k₂'
        (a ++ ⟨op, distanceBytes d.extent, line⟩ :: d)
        (a' ++ ⟨op, distanceBytes d.extent, line⟩ :: d') ∧
      k₂.constants = k₁.constants ∧ k₂'.constants = k₁'.constants := by
  obtain ⟨-, happends, hconstants⟩ := h.appends.patchJump hpatch
  obtain ⟨-, happends', hconstants'⟩ := h.appends'.patchJump hpatch'
  obtain ⟨hfront, -, hback⟩ := forall₂_append_cons h.code hlength
  have hextent : d.extent = d'.extent :=
    Code.extent_eq_of_forall₂ hback fun _ _ hi => hi.length_eq
  rw [← hextent] at happends'
  refine ⟨⟨happends, happends', hconstants ▸ h.constants, hconstants' ▸ h.constants', ?_⟩,
    hconstants, hconstants'⟩
  rw [hconstants, hconstants']
  refine List.rel_append hfront (.cons ⟨fun _ => ?_, fun _ => rfl⟩ hback)
  cases op <;> first
    | exact absurd hop (by decide)
    | exact .plain rfl (by decide) (by simp) rfl

end Chunk.Twins

/-! ## Builders -/

/-- The lowest of the locals of a script is the script itself, which nothing captures. -/
def OverCallee (locals : List Local) : Prop :=
  ∃ above, locals = above ++ [⟨"", 0, true, false⟩]

theorem OverCallee.cons {locals : List Local} (h : OverCallee locals) (l : Local) :
    OverCallee (l :: locals) := by
  obtain ⟨above, rfl⟩ := h
  exact ⟨l :: above, rfl⟩

/-- The locals of an inner scope are not the lowest one. -/
theorem OverCallee.leave {locals : List Local} (h : OverCallee locals) (depth : Nat) :
    OverCallee (locals.drop (locals.takeWhile (depth < ·.depth)).length) := by
  obtain ⟨above, rfl⟩ := h
  induction above with
  | nil => exact ⟨[], by simp⟩
  | cons l above ih =>
    rw [List.cons_append, List.takeWhile_cons]
    split
    · rwa [List.length_cons, List.drop_succ_cons]
    · exact ⟨l :: above, rfl⟩

/-- A name is not found in the lowest slot. -/
theorem OverCallee.slot_pos {locals : List Local} {name : String} {slot : Nat} {l : Local}
    (h : OverCallee locals) (hname : name ≠ "")
    (hfind : FunctionContext.findLocal? name locals = some (slot, l)) : 0 < slot := by
  obtain ⟨above, rfl⟩ := h
  induction above with
  | nil => simp [FunctionContext.findLocal?, hname.symm] at hfind
  | cons x above ih =>
    rw [List.cons_append, FunctionContext.findLocal?] at hfind
    split at hfind
    · obtain ⟨rfl, -⟩ := Prod.mk.inj (Option.some.inj hfind)
      simp
    · exact ih hfind

/-- Capturing another local leaves the script in the lowest slot. -/
theorem OverCallee.captureSlot {locals : List Local} (h : OverCallee locals) {slot : Nat}
    (hslot : slot ≠ 0) : OverCallee (FunctionContext.captureSlot slot locals) := by
  obtain ⟨above, rfl⟩ := h
  induction above with
  | nil =>
    rw [List.nil_append, FunctionContext.captureSlot,
      if_neg (show ([] : List Local).length ≠ slot from hslot.symm)]
    exact ⟨[], rfl⟩
  | cons x above ih =>
    rw [List.cons_append, FunctionContext.captureSlot]
    split
    · exact ⟨_ :: above, rfl⟩
    · exact ih.cons x

/-- The locals once the innermost one has its initial value, if there is a scope. -/
def markFirst : Nat → List Local → List Local
  | _ + 1, l :: rest => { l with initialized := true } :: rest
  | _, locals => locals

theorem FunctionContext.markInitialized_eq (c : FunctionContext) :
    c.markInitialized = { c with locals := markFirst c.depth c.locals } := by
  obtain ⟨function, locals, captures, depth⟩ := c
  cases depth <;> cases locals <;> rfl

@[simp] theorem length_markFirst (depth : Nat) (locals : List Local) :
    (markFirst depth locals).length = locals.length := by
  cases depth <;> cases locals <;> rfl

/-- An initial value leaves the script in the lowest slot. -/
theorem OverCallee.markFirst {locals : List Local} (h : OverCallee locals) (depth : Nat) :
    OverCallee (ScriptVM.markFirst depth locals) := by
  obtain ⟨above, rfl⟩ := h
  cases depth with
  | zero => exact ⟨above, rfl⟩
  | succ depth =>
    cases above with
    | nil => exact ⟨[], rfl⟩
    | cons l above => exact ⟨_ :: above, rfl⟩

/-- Two scripts at hand that may have other code and constants. -/
structure FunctionContext.Alongside (c c' : FunctionContext) : Prop where
  /-- They have the same locals. -/
  same : c' = { c with function := c'.function }
  /-- The first one is a script. -/
  kind : c.function.kind = .script
  /-- The other one is a script. -/
  kind' : c'.function.kind = .script
  /-- There is nothing around a script to capture. -/
  captures : c.captures = #[]
  /-- The constants of the first one are those of compiled code. -/
  stocked : c.function.chunk.Stocked
  /-- The constants of the other one are those of compiled code. -/
  stocked' : c'.function.chunk.Stocked
  /-- The locals can be numbered. -/
  limit : c.locals.length ≤ FunctionContext.localLimit
  /-- The lowest local is the script. -/
  callee : OverCallee c.locals

/-- The functions at hand of two builders, innermost first: the same ones inside of two scripts.  No
function captures the lowest local of the script. -/
inductive ContextsAlongside : List FunctionContext → List FunctionContext → Prop
  | script {c c' : FunctionContext} (h : c.Alongside c') : ContextsAlongside [c] [c']
  | inside {c : FunctionContext} {around around' : List FunctionContext}
      (h : ContextsAlongside around around')
      (hcaptures : around.length = 1 → takesSlot c.captures 0 = false) :
      ContextsAlongside (c :: around) (c :: around')

/-- There are as many functions at hand of both builders. -/
theorem ContextsAlongside.length_eq {contexts contexts' : List FunctionContext}
    (h : ContextsAlongside contexts contexts') : contexts.length = contexts'.length := by
  induction h with
  | script _ => rfl
  | inside _ _ ih => exact congrArg (· + 1) ih

theorem ContextsAlongside.ne_nil {contexts contexts' : List FunctionContext}
    (h : ContextsAlongside contexts contexts') : contexts ≠ [] := by
  cases h <;> exact List.cons_ne_nil _ _

/-! ### Captured variables -/

/-- A capture that does not name the lowest slot does not take it. -/
theorem takesSlot_addCapture {context : FunctionContext} {capture : Capture}
    (h : takesSlot context.captures 0 = false)
    (hcapture : capture.isLocal = true → capture.index ≠ 0) :
    takesSlot (context.addCapture capture).2.captures 0 = false := by
  unfold FunctionContext.addCapture
  split
  · exact h
  · split
    · rw [takesSlot_push, h, Bool.false_or]
      cases hlocal : capture.isLocal with
      | false => rfl
      | true =>
        rw [Bool.true_and, beq_eq_false_iff_ne]
        exact fun hzero => hcapture hlocal (UInt8.toNat_inj.1 hzero)
    · exact h

/-- Capturing a variable leaves the function itself as it is. -/
theorem function_addCapture (context : FunctionContext) (capture : Capture) :
    (context.addCapture capture).2.function = context.function := by
  unfold FunctionContext.addCapture
  split
  · rfl
  · split <;> rfl

namespace FunctionContext.Alongside

variable {c c' : FunctionContext} {name : String} {slot : UInt8}

theorem resolveLocal_eq (h : c.Alongside c') (name : String) :
    c'.resolveLocal name = c.resolveLocal name := by
  rw [h.same]
  rfl

/-- A name is not found in the lowest slot. -/
theorem slot_ne_zero (h : c.Alongside c') (hname : name ≠ "")
    (hslot : c.resolveLocal name = .ok (some slot)) : slot ≠ 0 := by
  rw [resolveLocal] at hslot
  split at hslot
  · cases hslot
  · next n l hfind =>
    split at hslot
    · obtain rfl := Option.some.inj (Except.ok.inj hslot)
      have hpos := h.callee.slot_pos hname hfind
      have hlt : n < 256 :=
        Nat.lt_of_lt_of_le (lt_length_of_slot?
          (FunctionContext.slot?_of_findLocal? hfind).1) h.limit
      intro hzero
      have hnat := congrArg UInt8.toNat hzero
      rw [UInt8.toNat_ofNat_of_lt' hlt] at hnat
      exact Nat.ne_of_gt hpos hnat
    · cases hslot

/-- Two scripts stay alongside while both have the same local captured. -/
theorem markCaptured (h : c.Alongside c') (hslot : slot ≠ 0) :
    (c.markCaptured slot).Alongside (c'.markCaptured slot) where
  same := by
    rw [h.same]
    rfl
  kind := h.kind
  kind' := h.kind'
  captures := h.captures
  stocked := h.stocked
  stocked' := h.stocked'
  limit := by
    show (captureSlot slot.toNat c.locals).length ≤ _
    rw [captureSlot_eq_markSlots, length_markSlots]
    exact h.limit
  callee := h.callee.captureSlot fun hzero => hslot (UInt8.toNat_inj.1 hzero)

end FunctionContext.Alongside

/-- What looking a name up does inside of functions that are alongside. -/
structure Resolution.Alongside (outer : FunctionContext) (around around' : List FunctionContext)
    (found found' : Resolution) : Prop where
  /-- The outcome is the same. -/
  index : found'.index = found.index
  /-- The function becomes the same. -/
  context : found'.context = found.context
  /-- The functions around are alongside. -/
  enclosing : ContextsAlongside found.enclosing found'.enclosing
  /-- The lowest local of a script is not captured. -/
  captures : found.enclosing.length = 1 → takesSlot found.context.captures 0 = false
  /-- The code of the function stays. -/
  function : found.context.function = outer.function
  /-- The code of the functions around stays. -/
  around : found.enclosing.map (·.function) = around.map (·.function)
  /-- The code of the other functions around stays. -/
  around' : found'.enclosing.map (·.function) = around'.map (·.function)

/-- **A name is looked up alike** inside of functions that are alongside. -/
theorem ContextsAlongside.resolveCapture {name : String} (hname : name ≠ "")
    {around around' : List FunctionContext} (h : ContextsAlongside around around')
    (context : FunctionContext)
    (hcaptures : around.length = 1 → takesSlot context.captures 0 = false) :
    Resolution.Alongside context around around' (ScriptVM.resolveCapture name context around)
      (ScriptVM.resolveCapture name context around') := by
  -- The induction is over the functions around, as far out as the name is looked for.
  induction h generalizing context with
  | @script c c' h =>
    have htakes := hcaptures rfl
    simp only [ScriptVM.resolveCapture, h.resolveLocal_eq name]
    split
    · exact ⟨rfl, rfl, .script h, fun _ => htakes, rfl, rfl, rfl⟩
    · next slot hslot =>
      have hne := h.slot_ne_zero hname hslot
      exact ⟨rfl, rfl, .script (h.markCaptured hne), fun _ =>
        takesSlot_addCapture htakes fun _ => hne,
        function_addCapture _ _, rfl, rfl⟩
    · exact ⟨rfl, rfl, .script h, fun _ => htakes, rfl, rfl, rfl⟩
  | @inside c around around' h htakes ih =>
    have hfound := ih c htakes
    have hlength : (c :: around).length ≠ 1 := by
      have hpos := List.length_pos_iff.2 h.ne_nil
      rw [List.length_cons]
      omega
    rw [ScriptVM.resolveCapture.eq_2 name context c around,
      ScriptVM.resolveCapture.eq_2 name context c around']
    split
    · exact ⟨rfl, rfl, .inside h htakes, hcaptures, rfl, rfl, rfl⟩
    · next slot hslot =>
      refine ⟨rfl, rfl, .inside h htakes, fun hone => absurd hone hlength, function_addCapture _ _,
        rfl, rfl⟩
    · obtain ⟨hindex, hcontext, henclosing, hcapt, hfunction, haround, haround'⟩ := hfound
      have hmap : (ScriptVM.resolveCapture name c around).context.function ::
          (ScriptVM.resolveCapture name c around).enclosing.map (·.function)
            = (c :: around).map (·.function) := by
        rw [haround, hfunction]
        rfl
      have hmap' : (ScriptVM.resolveCapture name c around').context.function ::
          (ScriptVM.resolveCapture name c around').enclosing.map (·.function)
            = (c :: around').map (·.function) := by
        rw [haround', hcontext, hfunction]
        rfl
      have hcontexts : ContextsAlongside
          ((ScriptVM.resolveCapture name c around).context ::
            (ScriptVM.resolveCapture name c around).enclosing)
          ((ScriptVM.resolveCapture name c around').context ::
            (ScriptVM.resolveCapture name c around').enclosing) := by
        rw [hcontext]
        exact .inside henclosing hcapt
      have hmore : ((ScriptVM.resolveCapture name c around).context ::
          (ScriptVM.resolveCapture name c around).enclosing).length ≠ 1 := by
        have hsame := congrArg List.length hmap
        rw [List.length_cons, List.length_map, List.length_map] at hsame
        rw [List.length_cons]
        omega
      dsimp only
      rw [hindex]
      split
      · exact ⟨rfl, rfl, hcontexts, fun hone => absurd hone hmore, rfl, hmap, hmap'⟩
      · exact ⟨rfl, rfl, hcontexts, fun hone => absurd hone hmore, rfl, hmap, hmap'⟩
      · exact ⟨rfl, rfl, hcontexts, fun hone => absurd hone hmore, function_addCapture _ _, hmap,
          hmap'⟩

/-- Two builders that build the same.  They have the same tokens to read up to some point, where the
other one has tokens to go on with, unless both are at the end. -/
structure Builder.Alongside (rest rest' : List ScanItem) (b b' : Builder) : Prop where
  /-- The tokens are the same up to a point. -/
  pending : ∃ ts : List Token, b.pending = ts.map .ok ++ rest ∧ b'.pending = ts.map .ok ++ rest'
  /-- The other one can go on there, or both are at the end. -/
  tail : (rest' = rest ∧ ∃ token : Token, rest = [.ok token] ∧ token.kind = .eof) ∨
    ∃ (token : Token) (more : List ScanItem), rest' = .ok token :: more ∧ token.kind ≠ .eof
  /-- The last token is on the same line. -/
  line : b'.previous.line = b.previous.line
  /-- The classes around are the same. -/
  classes : b'.classes = b.classes
  /-- The finished functions are the same. -/
  functions : b'.functions = b.functions
  /-- The functions at hand are the same but for the code of the script. -/
  contexts : ContextsAlongside (b.context :: b.enclosing) (b'.context :: b'.enclosing)

namespace Builder.Alongside

variable {rest rest' : List ScanItem} {b b' : Builder}

/-- The builders are both in a script, or both inside a function. -/
theorem cases_context (h : b.Alongside rest rest' b') :
    (b.enclosing = [] ∧ b'.enclosing = [] ∧ b.context.Alongside b'.context) ∨
      (b'.context = b.context ∧ b.enclosing ≠ [] ∧ b'.enclosing ≠ [] ∧
        ContextsAlongside b.enclosing b'.enclosing ∧
        (b.enclosing.length = 1 → takesSlot b.context.captures 0 = false)) := by
  have hcontexts := h.contexts
  generalize hb : b.context :: b.enclosing = contexts at hcontexts
  generalize hb' : b'.context :: b'.enclosing = contexts' at hcontexts
  cases hcontexts with
  | script h =>
    obtain ⟨rfl, henclosing⟩ := List.cons.inj hb
    obtain ⟨rfl, henclosing'⟩ := List.cons.inj hb'
    exact .inl ⟨henclosing, henclosing', h⟩
  | inside h hcaptures =>
    obtain ⟨hcontext, rfl⟩ := List.cons.inj hb
    obtain ⟨hcontext', rfl⟩ := List.cons.inj hb'
    subst hcontext
    refine .inr ⟨hcontext', h.ne_nil, fun hnil => h.ne_nil ?_, h, hcaptures⟩
    rw [← List.length_eq_zero_iff, h.length_eq, hnil]
    rfl

/-- Inside of a function the two are at the same one. -/
theorem inside_eq (h : b.Alongside rest rest' b') (hinside : b.enclosing ≠ []) :
    b'.context = b.context := by
  rcases h.cases_context with ⟨hscript, -⟩ | ⟨hcontext, -⟩
  · exact absurd hscript hinside
  · exact hcontext

/-- Outside of all functions the scripts of the two are alongside. -/
theorem script (h : b.Alongside rest rest' b') (hscript : b.enclosing = []) :
    b.context.Alongside b'.context := by
  rcases h.cases_context with ⟨-, -, hcontext⟩ | ⟨-, hinside, -⟩
  · exact hcontext
  · exact absurd hscript hinside

/-- The variables of the functions at hand are the same. -/
theorem context_eq (h : b.Alongside rest rest' b') :
    b'.context = { b.context with function := b'.context.function } := by
  rcases h.cases_context with ⟨-, -, h⟩ | ⟨h, -⟩
  · exact h.same
  · rw [h]

/-- The functions at hand are of the same kind. -/
theorem kind_eq (h : b.Alongside rest rest' b') :
    b'.context.function.kind = b.context.function.kind := by
  rcases h.cases_context with ⟨-, -, h⟩ | ⟨h, -⟩
  · exact h.kind'.trans h.kind.symm
  · rw [h]

theorem locals_eq (h : b.Alongside rest rest' b') : b'.context.locals = b.context.locals := by
  rw [h.context_eq]

theorem depth_eq (h : b.Alongside rest rest' b') : b'.context.depth = b.context.depth := by
  rw [h.context_eq]

/-- Both builders get other functions at hand, which capture the same. -/
theorem withContext {x x' : FunctionContext} (h : b.Alongside rest rest' b')
    (hscript : b.enclosing = [] → b.context.Alongside b'.context → x.Alongside x')
    (hinside : b'.context = b.context → b.enclosing ≠ [] → x' = x)
    (hcaptures : x.captures = b.context.captures) :
    Alongside rest rest' { b with context := x } { b' with context := x' } := by
  refine { h with contexts := ?_ }
  rcases h.cases_context with ⟨hb, hb', hcontext⟩ | ⟨hcontext, hne, -, henclosing, htaken⟩
  · show ContextsAlongside (x :: b.enclosing) (x' :: b'.enclosing)
    rw [hb, hb']
    exact .script (hscript hb hcontext)
  · show ContextsAlongside (x :: b.enclosing) (x' :: b'.enclosing)
    rw [hinside hcontext hne]
    exact .inside henclosing fun hlength => hcaptures ▸ htaken hlength

/-- Both builders get other code. -/
theorem withChunk {k k' : Chunk} (h : b.Alongside rest rest' b')
    (hscript : b.context.Alongside b'.context → k.Stocked ∧ k'.Stocked)
    (hinside : b'.chunk = b.chunk → b.enclosing ≠ [] → k' = k) :
    Alongside rest rest' (b.withChunk k) (b'.withChunk k') := by
  refine withContext h (fun _ hcontext => ?_) (fun hcontext hne => ?_) rfl
  · obtain ⟨hk, hk'⟩ := hscript hcontext
    refine ⟨?_, hcontext.kind, hcontext.kind', hcontext.captures, hk, hk', hcontext.limit,
      hcontext.callee⟩
    rw [hcontext.same]
  · rw [hcontext, hinside (congrArg (·.function.chunk) hcontext) hne]

end Builder.Alongside

/-- What two builders that are alongside have in common. -/
structure Builder.Level (b b' : Builder) : Prop where
  /-- The last token is on the same line. -/
  line : b'.previous.line = b.previous.line
  /-- The classes around are the same. -/
  classes : b'.classes = b.classes
  /-- The variables of the functions at hand are the same. -/
  context : b'.context = { b.context with function := b'.context.function }
  /-- The functions at hand are for the same thing. -/
  kind : b'.context.function.kind = b.context.function.kind

theorem Builder.Level.refl (b : Builder) : b.Level b :=
  ⟨rfl, rfl, rfl, rfl⟩

theorem Builder.Alongside.level {rest rest' : List ScanItem} {b b' : Builder}
    (h : b.Alongside rest rest' b') : b.Level b' :=
  ⟨h.line, h.classes, h.context_eq, h.kind_eq⟩

/-! ## Clean runs -/

/-- What clean runs of a step from two builders alongside do: corresponding code is appended, and
the functions around stay as they are. -/
structure Builder.Passing (rest rest' : List ScanItem) (b b' b₁ b₁' : Builder) (a a' : Code) :
    Prop where
  /-- The builders are alongside behind it. -/
  alongside : b₁.Alongside rest rest' b₁'
  /-- The first one is inside the same functions. -/
  around : b₁.enclosing.map (·.function) = b.enclosing.map (·.function)
  /-- The other one is inside the same functions. -/
  around' : b₁'.enclosing.map (·.function) = b'.enclosing.map (·.function)
  /-- The last tokens are the same if they were. -/
  spoken : b'.previous = b.previous → b₁'.previous = b₁.previous
  /-- The finished functions stay. -/
  functions : b.functions.toList <+: b₁.functions.toList
  /-- Corresponding code is appended. -/
  code : Chunk.Twins (b.enclosing = []) b₁.functions b.chunk b'.chunk b₁.chunk b₁'.chunk a a'

namespace Builder.Passing

variable {rest rest' : List ScanItem} {b b' b₁ b₁' b₂ b₂' : Builder} {a a' d d' : Code}
  {k k' : Chunk} {x x' : FunctionContext} {i i' : Instruction}

theorem refl (h : b.Alongside rest rest' b') : Passing rest rest' b b' b b' [] [] :=
  ⟨h, rfl, rfl, id, List.prefix_refl _, .refl _ _ _ _⟩

theorem enclosing_iff (h : Passing rest rest' b b' b₁ b₁' a a') :
    b₁.enclosing = [] ↔ b.enclosing = [] := by
  have haround := h.around
  rw [← List.map_eq_nil_iff (f := (·.function)), haround, List.map_eq_nil_iff]

/-- One stretch after the other. -/
theorem append (h : Passing rest rest' b b' b₁ b₁' a a')
    (h' : Passing rest rest' b₁ b₁' b₂ b₂' d d') :
    Passing rest rest' b b' b₂ b₂' (a ++ d) (a' ++ d') where
  alongside := h'.alongside
  around := h'.around.trans h.around
  around' := h'.around'.trans h.around'
  spoken := h'.spoken ∘ h.spoken
  functions := h.functions.trans h'.functions
  code := h.code.append (propext h.enclosing_iff ▸ h'.code) h'.functions

/-- Both builders get other functions at hand, which capture the same. -/
theorem withContext (h : b.Alongside rest rest' b')
    (hscript : b.enclosing = [] → b.context.Alongside b'.context → x.Alongside x')
    (hinside : b'.context = b.context → b.enclosing ≠ [] → x' = x)
    (hcaptures : x.captures = b.context.captures)
    (hcode : Chunk.Twins (b.enclosing = []) b.functions b.chunk b'.chunk x.function.chunk
      x'.function.chunk a a') :
    Passing rest rest' b b' { b with context := x } { b' with context := x' } a a' :=
  ⟨h.withContext hscript hinside hcaptures, rfl, rfl, id, List.prefix_refl _, hcode⟩

/-- Both builders get other code. -/
theorem withChunk (h : b.Alongside rest rest' b')
    (hscript : b.context.Alongside b'.context → k.Stocked ∧ k'.Stocked)
    (hinside : b'.chunk = b.chunk → b.enclosing ≠ [] → k' = k)
    (hcode : Chunk.Twins (b.enclosing = []) b.functions b.chunk b'.chunk k k' a a') :
    Passing rest rest' b b' (b.withChunk k) (b'.withChunk k') a a' :=
  ⟨h.withChunk hscript hinside, rfl, rfl, id, List.prefix_refl _, hcode⟩

/-- One instruction is appended. -/
theorem single (h : b.Alongside rest rest' b') (hk : b.chunk.Appends k [i])
    (hk' : b'.chunk.Appends k' [i']) (hconstants : k.constants = b.chunk.constants)
    (hconstants' : k'.constants = b'.chunk.constants)
    (hinside : b'.chunk = b.chunk → b.enclosing ≠ [] → k' = k)
    (hi : i.Twins (b.enclosing = []) b.functions b.chunk.constants b'.chunk.constants i') :
    Passing rest rest' b b' (b.withChunk k) (b'.withChunk k') [i] [i'] := by
  refine withChunk h (fun hcontext => ?_) hinside (.single hk hk' hconstants hconstants' hi)
  exact ⟨hcontext.stocked.of_constants_eq hconstants, hcontext.stocked'.of_constants_eq hconstants'⟩

/-- An instruction without operands is appended. -/
theorem emit (h : b.Alongside rest rest' b') {op : Opcode} {line : Nat}
    (hi : Instruction.Twins (b.enclosing = []) b.functions b.chunk.constants b'.chunk.constants
      ⟨op, [], line⟩ ⟨op, [], line⟩) :
    Passing rest rest' b b' (b.emit op line) (b'.emit op line) [⟨op, [], line⟩] [⟨op, [], line⟩] :=
  .single h (.addOpcode b.chunk op line) (.addOpcode b'.chunk op line) rfl rfl
    (fun hchunk _ => by rw [hchunk]) hi

/-- An instruction that neither leaves the call nor has operands. -/
theorem emitPlain (h : b.Alongside rest rest' b') {op : Opcode} (hop : op.operands = .none)
    (hret : op ≠ .ret) (line : Nat) :
    Passing rest rest' b b' (b.emit op line) (b'.emit op line) [⟨op, [], line⟩]
      [⟨op, [], line⟩] := by
  refine emit h ⟨fun _ => .plain ?_ hret ?_ ?_, fun _ => rfl⟩
  · rw [Opcode.refers, hop]
  · rintro (rfl | rfl) <;> cases hop
  · rw [Opcode.operandLength, hop]
    rfl

theorem emitPop (h : b.Alongside rest rest' b') (line : Nat) :
    Passing rest rest' b b' (b.emit .pop line) (b'.emit .pop line) [⟨.pop, [], line⟩]
      [⟨.pop, [], line⟩] :=
  emitPlain h rfl (by decide) line

/-- A jump is appended. -/
theorem emitJump (h : b.Alongside rest rest' b') (op : Opcode) (hop : op.operands = .forward)
    (line : Nat) :
    Passing rest rest' b b' (b.emitJump op line) (b'.emitJump op line) [⟨op, [0xFF, 0xFF], line⟩]
      [⟨op, [0xFF, 0xFF], line⟩] := by
  refine .single h (.addJump b.chunk op line) (.addJump b'.chunk op line) rfl rfl
    (fun hchunk _ => by rw [hchunk]) ⟨fun _ => .plain ?_ ?_ ?_ ?_, fun _ => rfl⟩
  · rw [Opcode.refers, hop]
  · rintro rfl
    cases hop
  · rintro (rfl | rfl) <;> cases hop
  · rw [Opcode.operandLength, hop]
    rfl

/-- Jumps back to corresponding places are appended. -/
theorem addLoop (h : Passing rest rest' b b' b₁ b₁' a a')
    (hb : b.Alongside rest rest' b') {line : Nat}
    (hloop : b₁.chunk.addLoop b.chunk.size line = .ok k)
    (hloop' : b₁'.chunk.addLoop b'.chunk.size line = .ok k') :
    ∃ i, Passing rest rest' b b' (b₁.withChunk k) (b₁'.withChunk k') (a ++ [i]) (a' ++ [i]) := by
  obtain ⟨-, -, happends, hconstants⟩ := Chunk.Appends.addLoop hloop
  obtain ⟨-, -, happends', hconstants'⟩ := Chunk.Appends.addLoop hloop'
  have hextent := h.code.extent_eq
  have hsize := h.code.appends.size_eq
  have hsize' := h.code.appends'.size_eq
  have hdistance : b₁'.chunk.size + Chunk.jumpLength - b'.chunk.size
      = b₁.chunk.size + Chunk.jumpLength - b.chunk.size := by
    omega
  rw [hdistance] at happends'
  refine ⟨_, h.append (.single h.alongside happends happends' hconstants hconstants'
    (fun hchunk hne => ?_) ⟨fun _ => .plain rfl (by simp) (by simp) rfl, fun _ => rfl⟩)⟩
  have hsame : b'.chunk = b.chunk :=
    congrArg (·.function.chunk) (hb.inside_eq (mt h.enclosing_iff.2 hne))
  rw [hchunk, hsame, hloop] at hloop'
  exact (Except.ok.inj hloop').symm

/-- Both builders have other locals. -/
theorem withLocals (h : b.Alongside rest rest' b') (locals : List Local)
    (hlimit : b.context.locals.length ≤ FunctionContext.localLimit →
      locals.length ≤ FunctionContext.localLimit)
    (hcallee : OverCallee b.context.locals → OverCallee locals) :
    Passing rest rest' b b' (b.withLocals locals) (b'.withLocals locals) [] [] := by
  refine withContext h (fun _ hcontext => ?_) (fun hcontext _ => ?_) rfl (.refl _ _ _ _)
  · refine ⟨?_, hcontext.kind, hcontext.kind', hcontext.captures, hcontext.stocked,
      hcontext.stocked', hlimit hcontext.limit, hcallee hcontext.callee⟩
    rw [hcontext.same]
  · rw [hcontext]

/-- Both builders are at another depth. -/
theorem withDepth (h : b.Alongside rest rest' b') (depth : Nat) :
    Passing rest rest' b b' (b.withDepth depth) (b'.withDepth depth) [] [] := by
  refine withContext h (fun _ hcontext => ?_) (fun hcontext _ => ?_) rfl (.refl _ _ _ _)
  · refine ⟨?_, hcontext.kind, hcontext.kind', hcontext.captures, hcontext.stocked,
      hcontext.stocked', hcontext.limit, hcontext.callee⟩
    rw [hcontext.same]
  · rw [hcontext]

/-- Corresponding jumps behind pieces of code are patched alike. -/
theorem patch (a a' : Code) {op : Opcode} {p q : UInt8} {line : Nat} (hop : op.operands = .forward)
    (h : Passing rest rest' b b' b₁ b₁' (a ++ ⟨op, [p, q], line⟩ :: d)
      (a' ++ ⟨op, [p, q], line⟩ :: d')) (hb : b.Alongside rest rest' b')
    (hlength : a.length = a'.length)
    (hpatch : b₁.chunk.patchJump (b.chunk.size + a.extent) = .ok k)
    (hpatch' : b₁'.chunk.patchJump (b'.chunk.size + a'.extent) = .ok k') :
    Passing rest rest' b b' (b₁.withChunk k) (b₁'.withChunk k')
      (a ++ ⟨op, distanceBytes d.extent, line⟩ :: d)
      (a' ++ ⟨op, distanceBytes d.extent, line⟩ :: d') := by
  obtain ⟨hcode, hconstants, hconstants'⟩ := h.code.patch hop hlength hpatch hpatch'
  refine ⟨h.alongside.withChunk (fun hcontext => ?_) (fun hchunk hne => ?_), h.around, h.around',
    h.spoken, h.functions, hcode⟩
  · exact ⟨hcontext.stocked.of_constants_eq hconstants,
      hcontext.stocked'.of_constants_eq hconstants'⟩
  · have hextent : a.extent = a'.extent :=
      Code.extent_eq_of_forall₂
        (forall₂_append_cons h.code.code hlength).1 fun _ _ hi => hi.length_eq
    have hsame : b'.chunk = b.chunk :=
      congrArg (·.function.chunk) (hb.inside_eq (mt h.enclosing_iff.2 hne))
    rw [hchunk, hsame, ← hextent, hpatch] at hpatch'
    exact (Except.ok.inj hpatch').symm

/-- Taking a token leaves the builders alongside, unless it is behind the common ones. -/
theorem take (h : b.Alongside rest rest' b') :
    b'.take.pending.length < rest'.length ∨
      Passing rest rest' b b' b.take b'.take [] [] ∧ b'.take.previous = b.take.previous := by
  obtain ⟨ts, hpending, hpending'⟩ := h.pending
  have hgo : b'.next = b.next → (∃ ts : List Token, b.take.pending = ts.map .ok ++ rest ∧
      b'.take.pending = ts.map .ok ++ rest') →
        Passing rest rest' b b' b.take b'.take [] [] ∧ b'.take.previous = b.take.previous :=
    fun hnext hpending =>
      ⟨⟨{ h with
        pending := hpending
        line := congrArg Token.line hnext },
      rfl, rfl, fun _ => hnext, List.prefix_refl _, .refl _ _ _ _⟩, hnext⟩
  cases ts with
  | cons t ts =>
    have hnext : b.next = t := by
      rw [Builder.next, hpending]
      rfl
    have hnext' : b'.next = t := by
      rw [Builder.next, hpending']
      rfl
    refine .inr (hgo (hnext'.trans hnext.symm) ?_)
    rw [Builder.take, Builder.take, hnext, hnext', hpending, hpending']
    dsimp only
    split
    · exact ⟨t :: ts, rfl, rfl⟩
    · exact ⟨ts, rfl, rfl⟩
  | nil =>
    rw [List.map_nil, List.nil_append] at hpending hpending'
    rcases h.tail with ⟨rfl, t, rfl, ht⟩ | ⟨t, more, rfl, ht⟩
    · -- Both are at the end token, which is not taken.
      have hnext : b.next = t := by
        rw [Builder.next, hpending]
        rfl
      have hnext' : b'.next = t := by
        rw [Builder.next, hpending']
        rfl
      refine .inr (hgo (hnext'.trans hnext.symm) ⟨[], ?_, ?_⟩)
      · rw [Builder.take, hnext, if_pos ht, hpending]
        rfl
      · rw [Builder.take, hnext', if_pos ht, hpending']
        rfl
    · -- The second one takes a token that the first one does not have.
      have hnext' : b'.next = t := by
        rw [Builder.next, hpending']
        rfl
      left
      rw [Builder.take, hnext', if_neg ht, hpending']
      exact Nat.lt_succ_self _

end Builder.Passing

end ScriptVM
