/-
# Running code forwards

What a machine does next depends on its values, its calls, its global variables and its objects,
whatever is in the cells of captured variables, as long as the code captures none (`Machine.view`).
A part of a run that succeeds takes one view to another (`Exec.Gives`), so code is run by putting
the views before and behind its instructions together (`View.Path`).

A path does not depend on the time or on where output goes, so pauses do not disturb it
(`View.Path.performing`, `View.Path.ends`).
-/
import ScriptVM.Proofs.Machine.Agreement
import ScriptVM.Proofs.Session.Overriding
import ScriptVM.Proofs.Session.Soundness

namespace ScriptVM

/-! ## Views -/

/-- What the next instructions of a machine depend on. -/
structure View where
  /-- The values on the stack, topmost first. -/
  values : List Value
  /-- The calls in progress, innermost first. -/
  calls : List Frame
  /-- The objects without the cells. -/
  heap : Heap
  /-- The global variables. -/
  globals : Bindings Value

/-- The objects without the cells. -/
def Heap.withoutCells (heap : Heap) : Heap :=
  { heap with cells := #[] }

namespace Heap

variable {heap heap' : Heap}

/-- A new closure is one of its function. -/
theorem functionOf_newClosure (heap : Heap) (c : Closure) :
    (heap.newClosure c).2.functionOf ⟨heap.closures.size⟩ = heap.function c.function := by
  simp [newClosure, functionOf, closure, function]

/-- The closures that there are stay what they are. -/
theorem closure_newClosure (heap : Heap) (c : Closure) {id : ClosureId}
    (h : id.index < heap.closures.size) : (heap.newClosure c).2.closure id = heap.closure id := by
  simp [newClosure, closure, Array.getElem?_push, Nat.ne_of_lt h]

theorem function_eq (h : heap'.withoutCells = heap) : heap'.function = heap.function := h ▸ rfl

theorem functionOf_eq (h : heap'.withoutCells = heap) : heap'.functionOf = heap.functionOf :=
  h ▸ rfl

theorem classAt_eq (h : heap'.withoutCells = heap) : heap'.classAt = heap.classAt := h ▸ rfl

theorem instanceAt_eq (h : heap'.withoutCells = heap) : heap'.instanceAt = heap.instanceAt :=
  h ▸ rfl

theorem classOf_eq (h : heap'.withoutCells = heap) : heap'.classOf = heap.classOf := h ▸ rfl

theorem field?_eq (h : heap'.withoutCells = heap) : heap'.field? = heap.field? := h ▸ rfl

end Heap

/-- The view of a machine. -/
def Machine.view (m : Machine) : View :=
  ⟨m.values, m.calls, m.heap.withoutCells, m.globals⟩

/-- What a function runs. -/
structure Body where
  /-- The number of parameters. -/
  arity : UInt8
  /-- The bytes of the code. -/
  code : List UInt8
  /-- The constants. -/
  constants : List Value

/-- What a function runs; its lines and its name are left out. -/
def Function.body (f : Function) : Body :=
  ⟨f.arity, f.chunk.code.toList, f.chunk.constants.toList⟩

/-- Closing cells leaves all other objects as they are. -/
theorem Heap.withoutCells_closeCells (stack : Stack Value stackLimit) (closing : List CellId)
    (heap : Heap) :
    (closing.foldl (Machine.closeCell stack) heap).withoutCells = heap.withoutCells := by
  induction closing generalizing heap with
  | nil => rfl
  | cons id rest ih =>
    rw [List.foldl_cons, ih]
    unfold Machine.closeCell
    split <;> rfl

/-- The next instructions do not see that cells are closed. -/
theorem Machine.view_closeCells (m : Machine) (bottom : Nat) :
    (m.closeCells bottom).view = m.view := by
  unfold view
  congr 1
  exact Heap.withoutCells_closeCells _ _ _

theorem Machine.length_calls (m : Machine) : m.calls.length = m.frames.size :=
  Stack.length_down _

theorem Machine.nesting_eq_countP (m : Machine) :
    m.nesting = m.calls.countP (·.resume.isNested) :=
  (List.countP_reverse ..).symm

/-! ## Parts of runs -/

namespace Exec

/-- On every machine with one view a part of a run succeeds and leaves a machine with another. -/
def Gives {α : Type} (x : Exec α) (v : View) (a : α) (v' : View) : Prop :=
  ∀ m : Machine, m.view = v → ∃ m', x m = .ok a m' ∧ m'.view = v'

section

variable {α β : Type} {x : Exec α} {a : α} {b : β} {v v₁ v' : View}

theorem Gives.pure : (pure a : Exec α).Gives v a v :=
  fun m hm => ⟨m, rfl, hm⟩

/-- Parts of a run follow on each other. -/
theorem Gives.bind {f : α → Exec β} (h : x.Gives v a v₁) (hf : (f a).Gives v₁ b v') :
    (x >>= f).Gives v b v' := by
  intro m hm
  obtain ⟨m₁, hx, hm₁⟩ := h m hm
  obtain ⟨m', hfm, hm'⟩ := hf m₁ hm₁
  exact ⟨m', (bind_of_ok hx).trans hfm, hm'⟩

/-- What is read from the machine does not change it. -/
theorem Gives.bind_get {f : Machine → Exec β} (h : ∀ m : Machine, m.view = v → (f m).Gives v b v') :
    (get >>= f).Gives v b v' := by
  intro m hm
  obtain ⟨m', hf, hm'⟩ := h m hm m hm
  exact ⟨m', (bind_of_ok (show (get : Exec Machine) m = .ok m m from rfl)).trans hf, hm'⟩

/-- A part of a run that succeeds does one thing only. -/
theorem Gives.unique {m m' : Machine} {a' : α} (h : x.Gives m.view a v') (heq : x m = .ok a' m') :
    a' = a ∧ m'.view = v' := by
  obtain ⟨m'', heq', hm''⟩ := h m rfl
  rw [heq] at heq'
  cases heq'
  exact ⟨rfl, hm''⟩

end

variable {values below args : List Value} {value callee result : Value} {calls rest : List Frame}
  {f : Frame} {heap heap' : Heap} {globals : Bindings Value} {c : ClosureId} {n : UInt8}

/-- What is read from the objects is what the view has, but for the cells. -/
theorem Gives.bind_heap {α : Type} {g : Heap → Exec α} {a : α} {v' : View}
    (h : ∀ heap' : Heap, heap'.withoutCells = heap →
      (g heap').Gives ⟨values, calls, heap, globals⟩ a v') :
    (Exec.heap >>= g).Gives ⟨values, calls, heap, globals⟩ a v' := by
  intro m hm
  obtain ⟨m', hg, hm'⟩ := h m.heap (View.mk.inj hm).2.2.1 m hm
  exact ⟨m', (bind_of_ok (show Exec.heap m = .ok m.heap m from rfl)).trans hg, hm'⟩

/-! ## Values on the stack -/

/-- A value is pushed if there is room for it. -/
theorem gives_push (hroom : values.length < stackLimit) : (push value).Gives
    ⟨values, calls, heap, globals⟩ () ⟨value :: values, calls, heap, globals⟩ := by
  intro m hm
  obtain ⟨rfl, rfl, rfl, rfl⟩ := View.mk.inj hm
  have hsize : m.stack.size < stackLimit := by rwa [m.size_stack]
  refine ⟨{ m with stack := m.stack.pushOf value hsize }, dif_pos hsize, ?_⟩
  unfold Machine.view
  congr 1
  exact Stack.down_pushOf hsize

/-- The value on top is popped. -/
theorem gives_pop : pop.Gives ⟨value :: values, calls, heap, globals⟩ value
    ⟨values, calls, heap, globals⟩ := by
  intro m hm
  obtain ⟨hvalues, rfl, rfl, rfl⟩ := View.mk.inj hm
  have htop : m.stack.top? = some value := by
    rw [Stack.top?_eq_head?]
    exact congrArg List.head? hvalues
  refine ⟨{ m with stack := m.stack.dropTop }, ?_, ?_⟩
  · unfold pop
    rw [htop]
  · unfold Machine.view
    congr 1
    show m.stack.dropTop.down = values
    rw [Stack.down_dropTop, show m.stack.down = value :: values from hvalues]
    rfl

/-- As many values as there are arguments are popped. -/
theorem gives_popMany (hn : n.toNat = args.length) :
    (popMany n.toNat).Gives ⟨args.reverse ++ values, calls, heap, globals⟩ args
      ⟨values, calls, heap, globals⟩ := by
  intro m hm
  obtain ⟨hvalues, rfl, rfl, rfl⟩ := View.mk.inj hm
  have hdown : m.stack.down = args.reverse ++ values := hvalues
  have hsize : m.stack.size = args.length + values.length := by
    rw [← Stack.length_down, hdown, List.length_append, List.length_reverse]
  refine ⟨{ m with stack := m.stack.truncate (m.stack.size - n.toNat) }, ?_, ?_⟩
  · unfold popMany
    rw [if_pos (by omega), Stack.topItems_eq hdown (by rw [hn, List.length_reverse]),
      List.reverse_reverse]
  · unfold Machine.view
    congr 1
    exact Stack.down_truncate hdown (by omega)

/-- A value in the stack is looked at. -/
theorem gives_peek {i : Nat} (h : values[i]? = some value) :
    (peek i).Gives ⟨values, calls, heap, globals⟩ value ⟨values, calls, heap, globals⟩ := by
  intro m hm
  have hvalues := (View.mk.inj hm).1
  exact ⟨m, peek_eq (hvalues ▸ h), hm⟩

/-- The value below the arguments. -/
theorem gives_receiver (hn : args.length = n.toNat) :
    (peek n.toNat).Gives ⟨args ++ callee :: below, calls, heap, globals⟩ callee
      ⟨args ++ callee :: below, calls, heap, globals⟩ := by
  refine gives_peek ?_
  rw [← hn, List.getElem?_append_right (Nat.le_refl _), Nat.sub_self]
  rfl

/-- The value in a slot is read. -/
theorem gives_getSlot {i : Nat} (h : slot? values i = some value) :
    (getSlot i).Gives ⟨values, calls, heap, globals⟩ value ⟨values, calls, heap, globals⟩ := by
  intro m hm
  have hvalues := (View.mk.inj hm).1
  exact ⟨m, getSlot_eq (hvalues ▸ h), hm⟩

/-- The callee is below its arguments. -/
theorem gives_calleeSlot {bottom : Nat} (h : values.length = n.toNat + 1 + bottom) :
    (calleeSlot n).Gives ⟨values, calls, heap, globals⟩ bottom ⟨values, calls, heap, globals⟩ := by
  intro m hm
  have hvalues := (View.mk.inj hm).1
  exact ⟨m, calleeSlot_eq (hvalues ▸ h), hm⟩

/-- The callee is replaced below its arguments. -/
theorem gives_setCallee (hn : args.length = n.toNat) :
    (setCallee n value).Gives ⟨args ++ callee :: below, calls, heap, globals⟩ ()
      ⟨args ++ value :: below, calls, heap, globals⟩ := by
  have hlength : (args ++ callee :: below).length = n.toNat + 1 + below.length := by
    rw [List.length_append, List.length_cons]
    omega
  refine (gives_calleeSlot hlength).bind ?_
  intro m hm
  obtain ⟨hvalues, rfl, rfl, rfl⟩ := View.mk.inj hm
  have hdown : m.stack.down = args ++ callee :: below := hvalues
  have hlist : m.stack.toList = below.reverse ++ callee :: args.reverse := by
    have h := congrArg List.reverse hdown
    rw [Stack.down, List.reverse_reverse] at h
    rw [h]
    simp
  have hlt : below.length < m.stack.size := by
    rw [← Stack.length_down, hdown, List.length_append, List.length_cons]
    omega
  refine ⟨{ m with stack := m.stack.replace below.length value }, if_pos hlt, ?_⟩
  unfold Machine.view
  congr 1
  show (m.stack.replace below.length value).down = args ++ value :: below
  rw [Stack.down, Stack.toList_replace, hlist,
    List.set_append_right _ _ (by simp), List.length_reverse, Nat.sub_self,
    List.set_cons_zero]
  simp

/-! ## Objects -/

/-- An object is made, whatever the cells are. -/
theorem gives_allocate {α : Type} (make : Heap → α × Heap)
    (hmake : ∀ heap : Heap, make heap.withoutCells = ((make heap).1, (make heap).2.withoutCells))
    {a : α}
    (h : make heap = (a, heap')) :
    (allocate make).Gives ⟨values, calls, heap, globals⟩ a ⟨values, calls, heap', globals⟩ := by
  intro m hm
  obtain ⟨rfl, rfl, rfl, rfl⟩ := View.mk.inj hm
  rw [hmake] at h
  obtain ⟨rfl, rfl⟩ := Prod.mk.inj h
  exact ⟨{ m with heap := (make m.heap).2 }, rfl, rfl⟩

/-- Objects are changed, whatever the cells are. -/
theorem gives_modifyHeap (g : Heap → Heap)
    (hg : ∀ heap : Heap, g heap.withoutCells = (g heap).withoutCells) :
    (modifyHeap g).Gives ⟨values, calls, heap, globals⟩ () ⟨values, calls, g heap, globals⟩ := by
  intro m hm
  obtain ⟨rfl, rfl, rfl, rfl⟩ := View.mk.inj hm
  refine ⟨{ m with heap := g m.heap }, rfl, ?_⟩
  rw [hg]
  rfl

/-! ## Reading code -/

section

variable {body : Body} {ip s i : Nat} {r : Resume} {byte : UInt8} {name : String} {op : Opcode}

/-- Only the innermost call moves on. -/
theorem view_moveTo {m : Machine} (h : m.view = ⟨values, f :: rest, heap, globals⟩) :
    (m.moveTo ip).view = ⟨values, { f with ip } :: rest, heap, globals⟩ := by
  obtain ⟨rfl, hcalls, rfl, rfl⟩ := View.mk.inj h
  unfold Machine.view
  rw [Machine.calls_moveTo hcalls]
  rfl

/-- The next byte is read, and the call moves on behind it. -/
theorem gives_readByte (hbody : (heap.functionOf c).body = body)
    (hbyte : body.code[ip]? = some byte) :
    readByte.Gives ⟨values, ⟨c, ip, s, r⟩ :: rest, heap, globals⟩ byte
      ⟨values, ⟨c, ip + 1, s, r⟩ :: rest, heap, globals⟩ := by
  intro m hm
  obtain ⟨-, hcalls, rfl, -⟩ := View.mk.inj hm
  subst hbody
  refine ⟨m.moveTo (ip + 1), readByte_eq_of_ip hcalls ?_, view_moveTo hm⟩
  rwa [← Array.getElem?_toList]

/-- A constant is read by its index. -/
theorem gives_readConstant (hbody : (heap.functionOf c).body = body)
    (hbyte : body.code[ip]? = some byte) (hconstant : body.constants[byte.toNat]? = some value) :
    readConstant.Gives ⟨values, ⟨c, ip, s, r⟩ :: rest, heap, globals⟩ value
      ⟨values, ⟨c, ip + 1, s, r⟩ :: rest, heap, globals⟩ := by
  intro m hm
  obtain ⟨-, hcalls, rfl, -⟩ := View.mk.inj hm
  subst hbody
  have hread : readConstant (m.moveTo ip) = .ok value (m.moveTo (ip + 1)) := by
    rw [Function.body, Array.getElem?_toList] at hbyte hconstant
    exact readConstant_eq hcalls hbyte hconstant
  rw [Machine.moveTo_self hcalls] at hread
  exact ⟨m.moveTo (ip + 1), hread, view_moveTo hm⟩

/-- A name is read from the constants. -/
theorem gives_readName (hbody : (heap.functionOf c).body = body)
    (hbyte : body.code[ip]? = some byte)
    (hname : body.constants[byte.toNat]? = some (.string name)) :
    readName.Gives ⟨values, ⟨c, ip, s, r⟩ :: rest, heap, globals⟩ name
      ⟨values, ⟨c, ip + 1, s, r⟩ :: rest, heap, globals⟩ :=
  (gives_readConstant hbody hbyte hname).bind .pure

theorem gives_frame :
    frame.Gives ⟨values, f :: rest, heap, globals⟩ f ⟨values, f :: rest, heap, globals⟩ :=
  fun m hm => ⟨m, frame_eq (View.mk.inj hm).2.1, hm⟩

/-- **A step** reads an opcode and does the instruction. -/
theorem gives_step {outcome : Option Value} {v' : View} (hbody : (heap.functionOf c).body = body)
    (hop : body.code[ip]? = some op.toByte)
    (h : (execute op).Gives ⟨values, ⟨c, ip + 1, s, r⟩ :: rest, heap, globals⟩ outcome v') :
    step.Gives ⟨values, ⟨c, ip, s, r⟩ :: rest, heap, globals⟩ outcome v' := by
  have hopcode : readOpcode.Gives ⟨values, ⟨c, ip, s, r⟩ :: rest, heap, globals⟩ op
      ⟨values, ⟨c, ip + 1, s, r⟩ :: rest, heap, globals⟩ := by
    refine (gives_readByte hbody hop).bind ?_
    rw [Opcode.ofByte?_toByte]
    exact .pure
  exact hopcode.bind h

theorem gives_proceed {x : Exec Unit} {v v' : View} (h : x.Gives v () v') :
    (proceed x).Gives v none v' :=
  h.bind .pure

/-! ## Calls -/

/-- A closure is entered with its arguments, if there is room for another call. -/
theorem gives_enter (hbody : (heap.functionOf c).body = body) (harity : body.arity = n)
    {bottom : Nat} (hvalues : values.length = n.toNat + 1 + bottom)
    (hroom : calls.length < frameLimit) :
    (enter c n r).Gives ⟨values, calls, heap, globals⟩ ()
      ⟨values, ⟨c, 0, bottom, r⟩ :: calls, heap, globals⟩ := by
  refine .bind_heap fun heap' hheap => ?_
  have hfunction : (heap'.functionOf c).arity = n := by
    rw [Heap.functionOf_eq hheap, ← harity, ← hbody]
    rfl
  dsimp only
  rw [if_neg (by simp [hfunction])]
  refine (gives_calleeSlot hvalues).bind ?_
  intro m hm
  obtain ⟨rfl, rfl, rfl, rfl⟩ := View.mk.inj hm
  have hsize : m.frames.size < frameLimit := by rwa [← Stack.length_down]
  refine ⟨{ m with frames := m.frames.pushOf ⟨c, 0, bottom, r⟩ hsize }, dif_pos hsize, ?_⟩
  unfold Machine.view
  congr 1
  exact Stack.down_pushOf hsize

/-- A call inside an instruction. -/
theorem gives_evaluate (hbody : (heap.functionOf c).body = body) (harity : body.arity = 0)
    (hvalues : values.length < stackLimit) (hroom : calls.length < frameLimit)
    (hnesting : calls.countP (·.resume.isNested) < nestingLimit) :
    (evaluate c value r).Gives ⟨values, calls, heap, globals⟩ ()
      ⟨value :: values, ⟨c, 0, values.length, r⟩ :: calls, heap, globals⟩ := by
  refine .bind_get fun m hm => ?_
  have hcount := m.nesting_eq_countP
  rw [(View.mk.inj hm).2.1] at hcount
  rw [if_neg (by omega)]
  refine (gives_push hvalues).bind (gives_enter hbody harity ?_ hroom)
  rw [List.length_cons, show (0 : UInt8).toNat = 0 from rfl]
  omega

/-- A call is left: its slots go, and its result is used. -/
theorem gives_leave {outcome : Option Value} {v' : View} {X : List Value}
    (h : (resume result r).Gives ⟨below, rest, heap, globals⟩ outcome v') :
    leave.Gives ⟨result :: (X ++ below), ⟨c, ip, below.length, r⟩ :: rest, heap, globals⟩
      outcome v' := by
  rw [leave_eq]
  refine Gives.bind (a := (result, r)) ?_ h
  intro m hm
  obtain ⟨hvalues, hcalls, rfl, rfl⟩ := View.mk.inj hm
  have htop : m.stack.top? = some result := by
    rw [Stack.top?_eq_head?]
    exact congrArg List.head? hvalues
  refine ⟨m.unwound below.length, unwind_eq_ok hcalls htop, ?_⟩
  have hdown : m.stack.dropTop.down = X ++ below := by
    rw [Stack.down_dropTop, show m.stack.down = result :: (X ++ below) from hvalues]
    rfl
  have hview := Machine.view_closeCells
    { m with stack := m.stack.dropTop, frames := m.frames.dropTop } below.length
  obtain ⟨-, -, hheap, -⟩ := View.mk.inj hview
  have hframes : m.frames.dropTop.down = rest := by
    rw [Stack.down_dropTop, show m.frames.down = _ from hcalls]
    rfl
  exact (View.mk.injEq ..).mpr ⟨Stack.down_truncate hdown rfl, hframes, hheap, rfl⟩

/-- A run starts with a closure of its function, which is called. -/
theorem gives_launch {function : FunctionId} (harity : (heap.function function).arity = 0) :
    (launch function).Gives ⟨[], [], heap, globals⟩ ()
      ⟨[.closureRef ⟨heap.closures.size⟩], [⟨⟨heap.closures.size⟩, 0, 0, .finish⟩],
        (heap.newClosure ⟨function, #[]⟩).2, globals⟩ := by
  have hfunction :
      ((heap.newClosure ⟨function, #[]⟩).2.functionOf ⟨heap.closures.size⟩).body.arity = 0 := by
    rw [Heap.functionOf_newClosure]
    exact harity
  exact (gives_allocate (·.newClosure ⟨function, #[]⟩) (fun _ => rfl) rfl).bind <|
    (gives_push (by decide)).bind (gives_enter rfl hfunction rfl (by decide))

/-! ## Instructions -/

/-- A constant is pushed. -/
theorem step_constant (hbody : (heap.functionOf c).body = body)
    (hop : body.code[ip]? = some Opcode.constant.toByte) (hbyte : body.code[ip + 1]? = some byte)
    (hconstant : body.constants[byte.toNat]? = some value) (hroom : values.length < stackLimit) :
    step.Gives ⟨values, ⟨c, ip, s, r⟩ :: rest, heap, globals⟩ none
      ⟨value :: values, ⟨c, ip + 2, s, r⟩ :: rest, heap, globals⟩ :=
  gives_step hbody hop <| gives_proceed <|
    (gives_readConstant hbody hbyte hconstant).bind (gives_push hroom)

/-- Nil is pushed. -/
theorem step_pushNil (hbody : (heap.functionOf c).body = body)
    (hop : body.code[ip]? = some Opcode.pushNil.toByte) (hroom : values.length < stackLimit) :
    step.Gives ⟨values, ⟨c, ip, s, r⟩ :: rest, heap, globals⟩ none
      ⟨.nil :: values, ⟨c, ip + 1, s, r⟩ :: rest, heap, globals⟩ :=
  gives_step hbody hop <| gives_proceed <| gives_push hroom

/-- The value on top is dropped. -/
theorem step_pop (hbody : (heap.functionOf c).body = body)
    (hop : body.code[ip]? = some Opcode.pop.toByte) :
    step.Gives ⟨value :: values, ⟨c, ip, s, r⟩ :: rest, heap, globals⟩ none
      ⟨values, ⟨c, ip + 1, s, r⟩ :: rest, heap, globals⟩ :=
  gives_step hbody hop <| gives_proceed <| gives_pop.bind .pure

/-- A local variable is pushed. -/
theorem step_getLocal (hbody : (heap.functionOf c).body = body)
    (hop : body.code[ip]? = some Opcode.getLocal.toByte) (hbyte : body.code[ip + 1]? = some byte)
    (hslot : slot? values (s + byte.toNat) = some value) (hroom : values.length < stackLimit) :
    step.Gives ⟨values, ⟨c, ip, s, r⟩ :: rest, heap, globals⟩ none
      ⟨value :: values, ⟨c, ip + 2, s, r⟩ :: rest, heap, globals⟩ :=
  gives_step hbody hop <| gives_proceed <| (gives_readByte hbody hbyte).bind <|
    gives_frame.bind <| (gives_getSlot hslot).bind (gives_push hroom)

/-- A global variable that is defined is pushed. -/
theorem step_getGlobal (hbody : (heap.functionOf c).body = body)
    (hop : body.code[ip]? = some Opcode.getGlobal.toByte) (hbyte : body.code[ip + 1]? = some byte)
    (hname : body.constants[byte.toNat]? = some (.string name))
    (hglobal : globals.get? name = some value) (hroom : values.length < stackLimit) :
    step.Gives ⟨values, ⟨c, ip, s, r⟩ :: rest, heap, globals⟩ none
      ⟨value :: values, ⟨c, ip + 2, s, r⟩ :: rest, heap, globals⟩ := by
  refine gives_step hbody hop <| gives_proceed <| (gives_readName hbody hbyte hname).bind <|
    .bind_get fun m hm => ?_
  rw [(View.mk.inj hm).2.2.2, hglobal]
  exact gives_push hroom

/-- A global variable is defined with the value on top. -/
theorem step_defineGlobal (hbody : (heap.functionOf c).body = body)
    (hop : body.code[ip]? = some Opcode.defineGlobal.toByte)
    (hbyte : body.code[ip + 1]? = some byte)
    (hname : body.constants[byte.toNat]? = some (.string name)) :
    step.Gives ⟨value :: values, ⟨c, ip, s, r⟩ :: rest, heap, globals⟩ none
      ⟨values, ⟨c, ip + 2, s, r⟩ :: rest, heap, globals.insert name value⟩ := by
  refine gives_step hbody hop <| gives_proceed <| (gives_readName hbody hbyte hname).bind <|
    gives_pop.bind ?_
  intro m hm
  obtain ⟨hvalues, hcalls, hheap, rfl⟩ := View.mk.inj hm
  exact ⟨_, rfl, (View.mk.injEq ..).mpr ⟨hvalues, hcalls, hheap, rfl⟩⟩

/-- A binary operator takes two values and leaves its result. -/
theorem step_binary {f : Value → Value → Except ValueError Value} {a b : Value}
    (hbody : (heap.functionOf c).body = body) (hop : body.code[ip]? = some op.toByte)
    (hexecute : execute op = proceed (applyBinary f)) (hf : f a b = .ok value)
    (hroom : values.length < stackLimit) :
    step.Gives ⟨b :: a :: values, ⟨c, ip, s, r⟩ :: rest, heap, globals⟩ none
      ⟨value :: values, ⟨c, ip + 1, s, r⟩ :: rest, heap, globals⟩ := by
  refine gives_step hbody hop ?_
  rw [hexecute]
  exact gives_proceed <| gives_pop.bind <| gives_pop.bind <|
    (show (ofOperator (f a b)).Gives _ value _ from hf ▸ .pure).bind (gives_push hroom)

/-! ### Properties -/

theorem gives_replaceTop {old : Value} (hroom : values.length < stackLimit) :
    (replaceTop value).Gives ⟨old :: values, calls, heap, globals⟩ ()
      ⟨value :: values, calls, heap, globals⟩ :=
  gives_pop.bind (gives_push hroom)

/-- A field of an instance is set, and the value stays. -/
theorem step_setProperty {id : InstanceId} (hbody : (heap.functionOf c).body = body)
    (hop : body.code[ip]? = some Opcode.setProperty.toByte)
    (hbyte : body.code[ip + 1]? = some byte)
    (hname : body.constants[byte.toNat]? = some (.string name))
    (hroom : values.length < stackLimit) :
    step.Gives ⟨value :: .instanceRef id :: values, ⟨c, ip, s, r⟩ :: rest, heap, globals⟩ none
      ⟨value :: values, ⟨c, ip + 2, s, r⟩ :: rest, heap.setField id name value, globals⟩ :=
  gives_step hbody hop <| gives_proceed <| (gives_readName hbody hbyte hname).bind <|
    gives_pop.bind <| gives_pop.bind <|
    (gives_modifyHeap (·.setField id name value) fun _ => rfl).bind (gives_push hroom)

/-- Reading a field. -/
theorem step_getField {id : InstanceId} (hbody : (heap.functionOf c).body = body)
    (hop : body.code[ip]? = some Opcode.getProperty.toByte)
    (hbyte : body.code[ip + 1]? = some byte)
    (hname : body.constants[byte.toNat]? = some (.string name))
    (hfield : heap.field? id name = some value) (hroom : values.length < stackLimit) :
    step.Gives ⟨.instanceRef id :: values, ⟨c, ip, s, r⟩ :: rest, heap, globals⟩ none
      ⟨value :: values, ⟨c, ip + 2, s, r⟩ :: rest, heap, globals⟩ := by
  refine gives_step hbody hop <| gives_proceed <| (gives_readName hbody hbyte hname).bind <|
    (gives_peek rfl).bind <| .bind_heap fun heap' hheap => ?_
  rw [Heap.field?_eq hheap, hfield]
  exact gives_replaceTop hroom

/-- Reading a computed property calls it. -/
theorem step_getComputed {id : InstanceId} {property : ClosureId} {code : Body}
    (hbody : (heap.functionOf c).body = body)
    (hop : body.code[ip]? = some Opcode.getProperty.toByte)
    (hbyte : body.code[ip + 1]? = some byte)
    (hname : body.constants[byte.toNat]? = some (.string name))
    (hfield : heap.field? id name = none)
    (hproperty : (heap.classOf id).properties.get? name = some property)
    (hcode : (heap.functionOf property).body = code) (harity : code.arity = 0)
    (hroom : values.length + 1 < stackLimit) (hframes : rest.length + 1 < frameLimit)
    (hnesting :
      (⟨c, ip + 2, s, r⟩ :: rest : List Frame).countP (·.resume.isNested) < nestingLimit) :
    step.Gives ⟨.instanceRef id :: values, ⟨c, ip, s, r⟩ :: rest, heap, globals⟩ none
      ⟨.instanceRef id :: .instanceRef id :: values,
        ⟨property, 0, values.length + 1, .property⟩ :: ⟨c, ip + 2, s, r⟩ :: rest, heap,
          globals⟩ := by
  refine gives_step hbody hop <| gives_proceed <| (gives_readName hbody hbyte hname).bind <|
    (gives_peek rfl).bind <| .bind_heap fun heap' hheap => ?_
  rw [Heap.field?_eq hheap, hfield, Heap.classOf_eq hheap, hproperty]
  exact gives_evaluate hcode harity hroom hframes hnesting

/-! ### Calls -/

/-- A call does what calling its callee does. -/
theorem step_call (args : List Value) {outcome : Unit} {v' : View}
    (hbody : (heap.functionOf c).body = body)
    (hop : body.code[ip]? = some Opcode.call.toByte) (hbyte : body.code[ip + 1]? = some n)
    (hn : args.length = n.toNat)
    (h : (callValue callee n).Gives
      ⟨args ++ callee :: below, ⟨c, ip + 2, s, r⟩ :: rest, heap, globals⟩
      outcome v') :
    step.Gives ⟨args ++ callee :: below, ⟨c, ip, s, r⟩ :: rest, heap, globals⟩ none v' := by
  exact gives_step hbody hop <| gives_proceed <| (gives_readByte hbody hbyte).bind <|
    (gives_receiver hn).bind h

/-- Calling an instance calls its method for indices. -/
theorem gives_callInstance (args : List Value) {id : InstanceId} {method : ClosureId} {code : Body}
    (hmethod : (heap.classOf id).methods.get? "subscript" = some method)
    (hcode : (heap.functionOf method).body = code) (harity : code.arity = n)
    (hn : args.length = n.toNat) (hroom : calls.length < frameLimit) :
    (callValue (.instanceRef id) n).Gives
      ⟨args ++ .instanceRef id :: below, calls, heap, globals⟩ ()
      ⟨args ++ .instanceRef id :: below, ⟨method, 0, below.length, .caller⟩ :: calls, heap,
        globals⟩ := by
  refine .bind_heap fun heap' hheap => ?_
  rw [Heap.classOf_eq hheap, hmethod]
  refine gives_enter hcode harity ?_ hroom
  rw [List.length_append, List.length_cons]
  omega

/-- Calling an array reads an element. -/
theorem gives_callArray {elements : List Value} {i : Int64} (hroom : values.length < stackLimit) :
    (callValue (.array elements) 1).Gives ⟨.int i :: callee :: values, calls, heap, globals⟩ ()
      ⟨elementAt elements i.toInt :: values, calls, heap, globals⟩ :=
  gives_pop.bind <| gives_pop.bind (gives_push hroom)

/-- Calling the native function that appends gives a longer array. -/
theorem gives_callAppend {elements : List Value} (hroom : values.length < stackLimit) :
    (callValue (.native .append) 2).Gives
      ⟨value :: .array elements :: callee :: values, calls, heap, globals⟩ ()
      ⟨.array (elements ++ [value]) :: values, calls, heap, globals⟩ :=
  (show (popMany 2).Gives _ [.array elements, value] _ from gives_popMany (n := 2) rfl).bind <|
    gives_pop.bind <| .bind_get fun _ _ => gives_push hroom

/-- Calling a class makes an instance and prepares it. -/
theorem gives_callClass (args : List Value) {id : ClassId} {init : ClosureId} {code : Body}
    (hinit : (heap.classAt id).methods.get? "init" = some init)
    (hcode : (heap.functionOf init).body = code) (harity : code.arity = n)
    (hn : args.length = n.toNat) (hroom : calls.length < frameLimit) :
    (callValue (.classRef id) n).Gives ⟨args ++ callee :: below, calls, heap, globals⟩ ()
      ⟨args ++ .instanceRef ⟨heap.instances.size⟩ :: below,
        ⟨init, 0, below.length, .caller⟩ :: calls, (heap.newInstance id).2, globals⟩ := by
  refine (gives_allocate (·.newInstance id) (fun _ => rfl) rfl).bind <|
    (gives_setCallee hn).bind <| .bind_heap fun heap' hheap => ?_
  have hinit' : (heap'.classAt id).methods.get? "init" = some init := by
    rw [Heap.classAt_eq hheap]
    exact hinit
  rw [hinit']
  refine gives_enter
    (show ((heap.newInstance id).2.functionOf init).body = code from hcode) harity ?_
    hroom
  rw [List.length_append, List.length_cons]
  omega

/-- An array literal does what calling the class of arrays does. -/
theorem step_arrayLiteral {arrayClass : Value} {outcome : Unit} {v' : View}
    (hbody : (heap.functionOf c).body = body)
    (hop : body.code[ip]? = some Opcode.arrayLiteral.toByte)
    (hbyte : body.code[ip + 1]? = some n) (hn : n.toNat = args.length)
    (hglobal : globals.get? "Array" = some arrayClass) (hroom : below.length + 2 < stackLimit)
    (h : (callValue arrayClass 2).Gives
      ⟨[.int (Int64.ofNat args.length), .array args] ++ arrayClass :: below,
        ⟨c, ip + 2, s, r⟩ :: rest, heap, globals⟩ outcome v') :
    step.Gives ⟨args.reverse ++ below, ⟨c, ip, s, r⟩ :: rest, heap, globals⟩ none v' := by
  refine gives_step hbody hop <| gives_proceed <| (gives_readByte hbody hbyte).bind <|
    (gives_popMany hn).bind <| .bind_get fun m hm => ?_
  rw [(View.mk.inj hm).2.2.2, hglobal, hn]
  exact (gives_push (by omega)).bind <| (gives_push (by rw [List.length_cons]; omega)).bind <|
    (gives_push (by simp only [List.length_cons]; omega)).bind h

/-- A method is called, unless a field hides it or a computed property has the name. -/
theorem step_invokeMethod (args : List Value) {id : InstanceId} {method : ClosureId} {code : Body}
    {n : UInt8}
    (hbody : (heap.functionOf c).body = body)
    (hop : body.code[ip]? = some Opcode.invoke.toByte) (hbyte : body.code[ip + 1]? = some byte)
    (hname : body.constants[byte.toNat]? = some (.string name))
    (hcount : body.code[ip + 2]? = some n) (hn : args.length = n.toNat)
    (hfield : heap.field? id name = none)
    (hproperty : (heap.classOf id).properties.get? name = none)
    (hmethod : (heap.classOf id).methods.get? name = some method)
    (hcode : (heap.functionOf method).body = code) (harity : code.arity = n)
    (hroom : rest.length + 1 < frameLimit) :
    step.Gives ⟨args ++ .instanceRef id :: below, ⟨c, ip, s, r⟩ :: rest, heap, globals⟩ none
      ⟨args ++ .instanceRef id :: below,
        ⟨method, 0, below.length, .caller⟩ :: ⟨c, ip + 3, s, r⟩ :: rest, heap, globals⟩ := by
  refine gives_step hbody hop <| gives_proceed <| (gives_readName hbody hbyte hname).bind <|
    (gives_readByte hbody hcount).bind <| (gives_receiver hn).bind <|
    .bind_heap fun heap₁ hheap₁ => ?_
  rw [Heap.field?_eq hheap₁, hfield, Heap.classOf_eq hheap₁, hproperty]
  refine .bind_heap fun heap₂ hheap₂ => ?_
  rw [Heap.classAt_eq hheap₂, Heap.instanceAt_eq hheap₁,
    show (heap.classAt (heap.instanceAt id).classId).methods.get? name = some method from hmethod]
  refine gives_enter hcode harity ?_ hroom
  rw [List.length_append, List.length_cons]
  omega

/-- A field is called in the place of a method. -/
theorem step_invokeField (args : List Value) {id : InstanceId} {n : UInt8} {v' : View}
    (hbody : (heap.functionOf c).body = body)
    (hop : body.code[ip]? = some Opcode.invoke.toByte) (hbyte : body.code[ip + 1]? = some byte)
    (hname : body.constants[byte.toNat]? = some (.string name))
    (hcount : body.code[ip + 2]? = some n) (hn : args.length = n.toNat)
    (hfield : heap.field? id name = some value)
    (h : (callValue value n).Gives
      ⟨args ++ value :: below, ⟨c, ip + 3, s, r⟩ :: rest, heap, globals⟩
      () v') :
    step.Gives ⟨args ++ .instanceRef id :: below, ⟨c, ip, s, r⟩ :: rest, heap, globals⟩
      none v' := by
  refine gives_step hbody hop <| gives_proceed <| (gives_readName hbody hbyte hname).bind <|
    (gives_readByte hbody hcount).bind <| (gives_receiver hn).bind <|
    .bind_heap fun heap' hheap => ?_
  rw [Heap.field?_eq hheap, hfield]
  exact (gives_setCallee hn).bind h

/-! ### Returns -/

/-- A return to the caller leaves the result where the callee was. -/
theorem step_return {X : List Value} (hbody : (heap.functionOf c).body = body)
    (hop : body.code[ip]? = some Opcode.ret.toByte) (hroom : below.length < stackLimit) :
    step.Gives ⟨result :: (X ++ below), ⟨c, ip, below.length, .caller⟩ :: rest, heap, globals⟩ none
      ⟨result :: below, rest, heap, globals⟩ :=
  gives_step hbody hop <| gives_leave <| (gives_push hroom).bind .pure

/-- The return of a computed property puts its result in the place of the instance. -/
theorem step_returnProperty {X : List Value} {receiver : Value}
    (hbody : (heap.functionOf c).body = body) (hop : body.code[ip]? = some Opcode.ret.toByte)
    (hroom : below.length < stackLimit) :
    step.Gives ⟨result :: (X ++ receiver :: below),
        ⟨c, ip, (receiver :: below).length, .property⟩ :: rest, heap, globals⟩ none
      ⟨result :: below, rest, heap, globals⟩ :=
  gives_step hbody hop <| gives_leave <| (gives_replaceTop hroom).bind .pure

/-- The return of the first call ends the run. -/
theorem step_finish {X : List Value} (hbody : (heap.functionOf c).body = body)
    (hop : body.code[ip]? = some Opcode.ret.toByte) :
    step.Gives ⟨result :: (X ++ below), ⟨c, ip, below.length, .finish⟩ :: rest, heap, globals⟩
      (some result) ⟨below, rest, heap, globals⟩ :=
  gives_step hbody hop <| gives_leave .pure

/-! ### Declarations -/

/-- A class is made, and has its name. -/
theorem step_newClass (hbody : (heap.functionOf c).body = body)
    (hop : body.code[ip]? = some Opcode.newClass.toByte) (hbyte : body.code[ip + 1]? = some byte)
    (hname : body.constants[byte.toNat]? = some (.string name))
    (hroom : values.length < stackLimit) :
    step.Gives ⟨values, ⟨c, ip, s, r⟩ :: rest, heap, globals⟩ none
      ⟨.classRef ⟨heap.classes.size⟩ :: values, ⟨c, ip + 2, s, r⟩ :: rest, (heap.newClass name).2,
        globals⟩ :=
  gives_step hbody hop <| gives_proceed <| (gives_readName hbody hbyte hname).bind <|
    (gives_allocate (·.newClass name) (fun _ => rfl) rfl).bind (gives_push hroom)

/-- A closure that captures nothing. -/
theorem step_closure {function : FunctionId} (hbody : (heap.functionOf c).body = body)
    (hop : body.code[ip]? = some Opcode.closure.toByte) (hbyte : body.code[ip + 1]? = some byte)
    (hfunction : body.constants[byte.toNat]? = some (.functionRef function))
    (hcaptures : (heap.function function).captureCount = 0) (hroom : values.length < stackLimit) :
    step.Gives ⟨values, ⟨c, ip, s, r⟩ :: rest, heap, globals⟩ none
      ⟨.closureRef ⟨heap.closures.size⟩ :: values, ⟨c, ip + 2, s, r⟩ :: rest,
        (heap.newClosure ⟨function, #[]⟩).2, globals⟩ := by
  refine gives_step hbody hop <| gives_proceed <| (gives_readConstant hbody hbyte hfunction).bind <|
    gives_frame.bind <| .bind_heap fun _ _ => .bind_heap fun heap' hheap => ?_
  dsimp only
  rw [Heap.function_eq hheap, hcaptures]
  exact Gives.bind .pure <|
    (gives_allocate (·.newClosure ⟨function, #[]⟩) (fun _ => rfl) rfl).bind (gives_push hroom)

theorem gives_classMember {id : ClassId} {member : ClosureId} : classMember.Gives
    ⟨.closureRef member :: .classRef id :: values, calls, heap, globals⟩ (id, member)
    ⟨.closureRef member :: .classRef id :: values, calls, heap, globals⟩ :=
  fun m hm => ⟨m, classMember_eq (View.mk.inj hm).1, hm⟩

/-- A member is added to the class below it. -/
theorem step_member {kind : MemberKind} {id : ClassId} {member : ClosureId}
    (hbody : (heap.functionOf c).body = body) (hop : body.code[ip]? = some kind.opcode.toByte)
    (hbyte : body.code[ip + 1]? = some byte)
    (hname : body.constants[byte.toNat]? = some (.string name)) :
    step.Gives ⟨.closureRef member :: .classRef id :: values, ⟨c, ip, s, r⟩ :: rest, heap,
      globals⟩ none
      ⟨.classRef id :: values, ⟨c, ip + 2, s, r⟩ :: rest, heap.declare id ⟨kind, name, member⟩,
        globals⟩ := by
  refine gives_step hbody hop ?_
  rw [kind.execute_opcode]
  refine gives_proceed <| (gives_readName hbody hbyte hname).bind <|
    gives_classMember.bind <|
    (gives_modifyHeap (·.declare id ⟨kind, name, member⟩) fun _ => ?_).bind (gives_pop.bind .pure)
  cases kind <;> rfl

end

end Exec

/-! ## Code that is run -/

/-- Step by step a machine comes from one view to another, with calls above `floor` others in
between.  The last step gives `outcome` and leaves no more than `floor` calls. -/
inductive View.Path (floor : Nat) (outcome : Option Value) : View → View → Prop
  | last {v v' : View} (h : Exec.step.Gives v outcome v') (hfloor : v'.calls.length ≤ floor) :
      Path floor outcome v v'
  | next {v v₁ v' : View} (h : Exec.step.Gives v none v₁) (habove : floor < v₁.calls.length)
      (hpath : Path floor outcome v₁ v') : Path floor outcome v v'

namespace View.Path

open Machine (length_calls)

variable {floor : Nat} {outcome : Option Value} {v v' : View} {m m₀ m' : Machine}

/-- The first step of a path succeeds. -/
theorem exists_step (h : Path floor outcome m.view v') : ∃ o m', Exec.step m = .ok o m' := by
  cases h with
  | last h _ | next h _ _ =>
    obtain ⟨m', hstep, -⟩ := h m rfl
    exact ⟨_, m', hstep⟩

/-- A step goes on along the path, or it is the last one. -/
theorem step {o : Option Value} (h : Path floor outcome m.view v')
    (hstep : Exec.step m = .ok o m') :
    (o = outcome ∧ m'.view = v' ∧ m'.calls.length ≤ floor) ∨
      (o = none ∧ floor < m'.calls.length ∧ Path floor outcome m'.view v') := by
  cases h with
  | last h hfloor =>
    obtain ⟨rfl, rfl⟩ := h.unique hstep
    exact .inl ⟨rfl, rfl, hfloor⟩
  | next h habove hpath =>
    obtain ⟨rfl, rfl⟩ := h.unique hstep
    exact .inr ⟨rfl, habove, hpath⟩

/-- **An instruction that runs along a path** stands on it until it is done, whatever pauses there
are. -/
theorem performing (h : Path m.frames.size none m.view v') (hm' : m.Performing m') :
    m'.view = v' ∧ m'.frames.size ≤ m.frames.size ∨
      m.frames.size < m'.frames.size ∧ Path m.frames.size none m'.view v' := by
  induction hm' with
  | start hstep =>
    rcases h.step hstep with ⟨-, hview, hfloor⟩ | ⟨-, habove, hpath⟩
    · exact .inl ⟨hview, by rwa [length_calls] at hfloor⟩
    · exact .inr ⟨by rwa [length_calls] at habove, hpath⟩
  | step _ habove hstep ih =>
    obtain ⟨-, hpath⟩ := ih.resolve_left fun hdone => by omega
    rcases hpath.step hstep with ⟨-, hview, hfloor⟩ | ⟨-, habove, hpath⟩
    · exact .inl ⟨hview, by rwa [length_calls] at hfloor⟩
    · exact .inr ⟨by rwa [length_calls] at habove, hpath⟩
  | pause _ sink now ih => exact ih

/-- Steps that succeed lead to the end of the path. -/
theorem exists_performing (h : Path m.frames.size none v v') (hm' : m.Performing m')
    (hv : m'.view = v) (habove : m.frames.size < m'.frames.size) :
    ∃ m'', m.Performing m'' ∧ m''.view = v' := by
  induction h generalizing m' with
  | last h _ =>
    obtain ⟨m'', hstep, hview⟩ := h m' hv
    exact ⟨m'', hm'.step habove hstep, hview⟩
  | next h hcalls _ ih =>
    obtain ⟨m₁, hstep, rfl⟩ := h m' hv
    exact ih (hm'.step habove hstep) rfl (m₁.length_calls ▸ hcalls)

end View.Path

/-- The next instruction of a machine succeeds, whatever it calls, and leaves the machine with a
view. -/
structure Machine.Comes (m : Machine) (v : View) : Prop where
  /-- The instruction can be done. -/
  returns : ∃ m', m.Performing m' ∧ m'.view = v
  /-- Nothing that it calls fails. -/
  goesOn : ∀ {m₁ : Machine}, m.Performing m₁ → m.frames.size < m₁.frames.size →
    ∃ m₂, Exec.step m₁ = .ok none m₂
  /-- However it is done, it leads there. -/
  result : ∀ {m' : Machine}, m.Performing m' → m'.frames.size ≤ m.frames.size → m'.view = v

/-- **An instruction succeeds** if there is a path that it runs along. -/
theorem View.Path.comes {m : Machine} {floor : Nat} {v v' : View} (h : v.Path floor none v')
    (hm : m.view = v) (hfloor : v.calls.length = floor) : m.Comes v' := by
  subst hm
  obtain rfl : m.frames.size = floor := m.length_calls.symm.trans hfloor
  refine ⟨?_, fun hm₁ habove => ?_, fun hm' hback => ?_⟩
  · obtain ⟨o, m₁, hstep⟩ := h.exists_step
    rcases h.step hstep with ⟨rfl, hview, -⟩ | ⟨rfl, habove, hpath⟩
    · exact ⟨m₁, .start hstep, hview⟩
    · exact hpath.exists_performing (.start hstep) rfl (m₁.length_calls ▸ habove)
  · obtain ⟨-, hpath⟩ := (h.performing hm₁).resolve_left fun hdone => by omega
    obtain ⟨o, m₂, hstep⟩ := hpath.exists_step
    rcases hpath.step hstep with ⟨rfl, -⟩ | ⟨rfl, -⟩ <;> exact ⟨m₂, hstep⟩
  · exact ((h.performing hm').resolve_right fun habove => by omega).1

/-! ### Runs -/

/-- A run along a path comes to its end after some steps. -/
theorem View.Path.exists_advance {floor : Nat} {value : Value} {m : Machine} {v v' : View}
    (h : Path floor (some value) v v') (hm : m.view = v) :
    ∃ n m', m.advance n = .finished value m' ∧ m'.view = v' := by
  induction h generalizing m with
  | last h _ =>
    obtain ⟨m', hstep, hm'⟩ := h m hm
    refine ⟨1, m', ?_, hm'⟩
    rw [Machine.advance, hstep]
  | next h _ _ ih =>
    obtain ⟨m₁, hstep, hm₁⟩ := h m hm
    obtain ⟨n, m', hadvance, hm'⟩ := ih hm₁
    refine ⟨n + 1, m', ?_, hm'⟩
    rw [Machine.advance, hstep]
    exact hadvance

/-- The run of a function without parameters starts with one call. -/
theorem Machine.exists_launch_view {m : Machine} {function : FunctionId} {heap : Heap}
    {globals : Bindings Value} (hm : m.view = ⟨[], [], heap, globals⟩)
    (harity : (heap.function function).arity = 0) :
    ∃ m', m.launch function = .running m' ∧ m'.view =
      ⟨[.closureRef ⟨heap.closures.size⟩], [⟨⟨heap.closures.size⟩, 0, 0, .finish⟩],
        (heap.newClosure ⟨function, #[]⟩).2, globals⟩ := by
  obtain ⟨m', hlaunch, hm'⟩ := Exec.gives_launch harity m hm
  refine ⟨m', ?_, hm'⟩
  rw [Machine.launch, hlaunch]

namespace Machine.Progress

variable {start : Progress} {m m₀ m' last : Machine} {value : Value} {v' : View}

/-- A run along a path stands on it. -/
theorem Visits.path (h : start.Visits m) (hstart : start = .running m₀)
    (hpath : m₀.view.Path 0 (some value) v') : m.view.Path 0 (some value) v' := by
  induction h with
  | start heq =>
    obtain rfl := Progress.running.inj (heq.symm.trans hstart)
    exact hpath
  | step _ hstep ih =>
    rcases ih.step hstep with ⟨hvalue, -⟩ | ⟨-, -, hpath⟩
    · cases hvalue
    · exact hpath
  | pause _ pause ih => exact ih

/-- **A run along a path** can end at its end only. -/
theorem Ends.path {outcome : Except Fault Value} (h : start.Ends last outcome m')
    (hstart : start = .running m₀) (hpath : m₀.view.Path 0 (some value) v') :
    outcome = .ok value ∧ m'.view = v' := by
  cases h with
  | returned hvisits hstep =>
    rcases (hvisits.path hstart hpath).step hstep with ⟨hvalue, hview, -⟩ | ⟨hnone, -⟩
    · cases hvalue
      exact ⟨rfl, hview⟩
    · cases hnone
  | failed hvisits hstep =>
    obtain ⟨o, m₁, hok⟩ := (hvisits.path hstart hpath).exists_step
    rw [hok] at hstep
    cases hstep
  | unstarted heq => cases heq.symm.trans hstart

end Machine.Progress

end ScriptVM
