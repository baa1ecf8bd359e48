/-
# What instructions change

A machine changes in small ways only: the values on its stack, the place that the innermost call has
come to, one more call, a global variable, the output, and the objects of the heap one at a time
(`Machine.Change`).  Every instruction but a return is a series of such changes, on any code
whatsoever and whether it succeeds or fails (`Exec.execute_changes`), and so is the use of a result
that does not end the run (`Exec.resume_changes`).  What each change keeps is therefore kept by
every instruction.  Classes change only where the instruction is one of those that declare them
(`Opcode.declares`), and only one instruction makes closures and captures slots for them.
-/
import Mathlib.Logic.Relation
import ScriptVM.Proofs.Machine.Nested

namespace ScriptVM

/-- Whether an instruction is one of those that make a class or add to it. -/
def Opcode.declares : Opcode → Bool
  | .newClass | .method | .computedProperty | .inherit => true
  | _ => false

namespace Machine

/-- The small ways in which an instruction changes a machine before the call in progress is left;
classes change only if they are being declared. -/
inductive Change (op : Opcode) : Machine → Machine → Prop
  /-- The call in progress goes to an offset. -/
  | goTo (m : Machine) (ip : Nat) : Change op m (m.moveTo ip)
  /-- The values on the stack change. -/
  | values (m : Machine) (stack : Stack Value stackLimit) : Change op m { m with stack }
  /-- A call is started that does not end the run. -/
  | call (m : Machine) (f : Frame) (hf : f.resume ≠ .finish) (hsize : m.frames.size < frameLimit) :
      Change op m { m with frames := m.frames.pushOf f hsize }
  /-- A global variable is defined or assigned. -/
  | global (m : Machine) (name : String) (value : Value) :
      Change op m { m with globals := m.globals.insert name value }
  /-- Something is written. -/
  | write (m : Machine) (text : String) : Change op m { m with sink := m.sink.write text }
  /-- A closure is made. -/
  | newClosure (m : Machine) (closure : Closure) (h : op = .closure) :
      Change op m { m with heap := (m.heap.newClosure closure).2 }
  /-- A class is made. -/
  | newClass (m : Machine) (name : String) (h : op.declares = true) :
      Change op m { m with heap := (m.heap.newClass name).2 }
  /-- An instance is made. -/
  | newInstance (m : Machine) (id : ClassId) :
      Change op m { m with heap := (m.heap.newInstance id).2 }
  /-- A field is assigned. -/
  | field (m : Machine) (id : InstanceId) (name : String) (value : Value) :
      Change op m { m with heap := m.heap.setField id name value }
  /-- A class gets a method. -/
  | method (m : Machine) (id : ClassId) (name : String) (member : ClosureId)
    (h : op.declares = true) :
      Change op m { m with heap := m.heap.defineMethod id name member }
  /-- A class gets a computed property. -/
  | property (m : Machine) (id : ClassId) (name : String) (member : ClosureId)
    (h : op.declares = true) :
      Change op m { m with heap := m.heap.defineProperty id name member }
  /-- A class gets the members of another one. -/
  | inherit (m : Machine) (subclass superclass : ClassId) (h : op.declares = true) :
      Change op m { m with heap := m.heap.inherit subclass superclass }
  /-- A captured variable is assigned whose slot is gone. -/
  | assign (m : Machine) (id : CellId) (old new : Value) (h : m.heap.cell id = .closed old) :
      Change op m { m with heap := m.heap.setCell id (.closed new) }
  /-- A slot is captured for the first time, for a closure that is being made. -/
  | capture (m : Machine) (slot : Nat) (h : op = .closure) :
      Change op m { m with
        heap := (m.heap.newCell (.openAt slot)).2
        openCells := ⟨m.heap.cells.size⟩ :: m.openCells }
  /-- The captured variables of the upper slots move into their cells. -/
  | close (m : Machine) (bottom : Nat) : Change op m (m.closeCells bottom)

/-- A machine comes to another one by small changes. -/
abbrev Becomes (op : Opcode) : Machine → Machine → Prop :=
  Relation.ReflTransGen (Change op)

end Machine

namespace Exec

open Machine (Change Becomes)

variable {d : Opcode} {α β : Type} {x : Exec α} {f : α → Exec β} {m : Machine}

/-- The machine that a part of a run leaves behind, whether it succeeds or fails. -/
def after (x : Exec α) (m : Machine) : Machine :=
  match x m with
  | .ok _ m' => m'
  | .error _ m' => m'

theorem after_of_ok {m' : Machine} {a : α} (h : x m = .ok a m') : x.after m = m' := by
  rw [after, h]

theorem after_of_error {m' : Machine} {e : Fault} (h : x m = .error e m') : x.after m = m' := by
  rw [after, h]

theorem after_bind_of_ok {m' : Machine} {a : α} (h : x m = .ok a m') :
    (x >>= f).after m = (f a).after m' := by
  rw [after, bind_of_ok h, after]

/-- Nothing is done behind a part of a run that fails. -/
theorem after_bind_of_error {m' : Machine} {e : Fault} (h : x m = .error e m') :
    (x >>= f).after m = m' := by
  refine after_of_error (e := e) ?_
  show EStateM.bind x f m = _
  rw [EStateM.bind, h]

/-- Going on with the run changes nothing. -/
theorem after_proceed (x : Exec Unit) (m : Machine) : (proceed x).after m = x.after m := by
  cases hx : x m with
  | ok a m' =>
    rw [after_of_ok hx, proceed, after_bind_of_ok hx]
    rfl
  | error e m' => rw [after_of_error hx, proceed, after_bind_of_error hx]

/-- A step leaves behind what its instruction does, once the opcode is read. -/
theorem after_step_of_execute {m m' : Machine} {op : Opcode} {x : Exec Unit}
    (hstep : step m = execute op m') (hop : execute op = proceed x) :
    step.after m = x.after m' := by
  rw [after, hstep, ← after, hop, after_proceed]

/-- A part of an instruction that consists of small changes. -/
class Changes (op : Opcode) (x : Exec α) : Prop where
  /-- The machine left behind comes from the machine before. -/
  becomes : ∀ m, Becomes op m (x.after m)

/-! ## Parts of instructions -/

/-- A part that leaves the machine alone. -/
theorem Changes.of_eq (h : ∀ m, x.after m = m) : Changes d x :=
  ⟨fun m => (h m).symm ▸ .refl⟩

/-- A part that is one change. -/
theorem Changes.of_change (h : ∀ m, Change d m (x.after m)) : Changes d x :=
  ⟨fun m => .single (h m)⟩

instance (a : α) : Changes d (pure a : Exec α) := .of_eq fun _ => rfl

instance (e : Fault) : Changes d (throw e : Exec α) := .of_eq fun _ => rfl

instance (e : RuntimeError) : Changes d (raise e : Exec α) := .of_eq fun _ => rfl

instance (e : Defect) : Changes d (defect e : Exec α) := .of_eq fun _ => rfl

instance : Changes d (get : Exec Machine) := .of_eq fun _ => rfl

instance : Changes d heap := .of_eq fun _ => rfl

instance [Changes d x] [∀ a, Changes d (f a)] : Changes d (x >>= f) where
  becomes m := by
    have hx : Becomes d m (x.after m) := Changes.becomes m
    cases hrun : x m with
    | ok a m' =>
      rw [after_of_ok hrun] at hx
      have hf : Becomes d m' ((f a).after m') := Changes.becomes m'
      rw [after_bind_of_ok hrun]
      exact hx.trans hf
    | error e m' =>
      rw [after_of_error hrun] at hx
      rwa [after_bind_of_error hrun]

theorem Changes.bind (hx : Changes d x) (hf : ∀ a, Changes d (f a)) : Changes d (x >>= f) :=
  inferInstance

instance (c : Prop) [Decidable c] (x y : Exec α) [Changes d x] [Changes d y] :
    Changes d (if c then x else y) := by
  split <;> infer_instance

instance (outcome : Except StackError α) : Changes d (ofStack outcome) := by
  cases outcome <;> (unfold ofStack; infer_instance)

instance (outcome : Except ValueError α) : Changes d (ofOperator outcome) := by
  cases outcome <;> (unfold ofOperator; infer_instance)

instance (closure : Closure) : Changes .closure (allocate (·.newClosure closure)) :=
  .of_change fun m => .newClosure m closure rfl

instance (name : String) : Changes .newClass (allocate (·.newClass name)) :=
  .of_change fun m => .newClass m name rfl

instance (id : ClassId) : Changes d (allocate (·.newInstance id)) :=
  .of_change fun m => .newInstance m id

instance (text : String) : Changes d (write text) := .of_change fun m => .write m text

instance (ip : Nat) : Changes d (goTo ip) := .of_change fun m => .goTo m ip

/-! ### The stacks -/

instance (value : Value) : Changes d (push value) where
  becomes m := by
    by_cases h : m.stack.size < stackLimit
    · rw [after_of_ok (by rw [push, dif_pos h])]
      exact .single (.values m _)
    · rw [after_of_error (by rw [push, dif_neg h])]

instance : Changes d pop where
  becomes m := by
    unfold after pop
    cases m.stack.top? with
    | none => exact .refl
    | some value => exact .single (.values m _)

instance (n : Nat) : Changes d (popMany n) where
  becomes m := by
    by_cases h : n ≤ m.stack.size
    · rw [after_of_ok (by rw [popMany, if_pos h])]
      exact .single (.values m _)
    · rw [after_of_error (by rw [popMany, if_neg h])]

instance (slot : Nat) (value : Value) : Changes d (setSlot slot value) where
  becomes m := by
    by_cases h : slot < m.stack.size
    · rw [after_of_ok (by rw [setSlot, if_pos h])]
      exact .single (.values m _)
    · rw [after_of_error (by rw [setSlot, if_neg h])]

instance (distance : Nat) : Changes d (peek distance) := by
  unfold peek
  infer_instance

instance (slot : Nat) : Changes d (getSlot slot) := by
  unfold getSlot
  infer_instance

instance (arguments : UInt8) : Changes d (calleeSlot arguments) := by
  unfold calleeSlot
  infer_instance

instance (arguments : UInt8) (value : Value) : Changes d (setCallee arguments value) := by
  unfold setCallee
  infer_instance

instance : Changes d frame where
  becomes m := by
    unfold after frame
    cases m.frames.top? <;> exact .refl

/-- A call is a small change, unless it is that of a run. -/
theorem pushFrame_changes {f : Frame} (hf : f.resume ≠ .finish) : Changes d (pushFrame f) where
  becomes m := by
    by_cases h : m.frames.size < frameLimit
    · rw [after_of_ok (by rw [pushFrame, dif_pos h])]
      exact .single (.call m f hf h)
    · rw [after_of_error (by rw [pushFrame, dif_neg h])]

/-! ### Captured variables -/

instance (bottom : Nat) : Changes d (closeCells bottom) := .of_change fun m => .close m bottom

instance (slot : Nat) : Changes .closure (captureSlot slot) where
  becomes m := by
    unfold after captureSlot
    cases m.openCells.find? fun id => (m.heap.cell id).slot? = some slot with
    | some id => exact .refl
    | none => exact .single (.capture m slot rfl)

instance (captures : Array CellId) (index : Nat) : Changes d (capturedCell captures index) := by
  unfold capturedCell
  split <;> infer_instance

instance (id : CellId) : Changes d (getCell id) := by
  unfold getCell
  refine .bind inferInstance fun heap => ?_
  split <;> infer_instance

instance (id : CellId) (value : Value) : Changes d (setCell id value) where
  becomes m := by
    have hrun : setCell id value m = (match m.heap.cell id with
        | .openAt slot => setSlot slot value
        | .closed _ => modifyHeap (·.setCell id (.closed value)) : Exec Unit) m := rfl
    rw [after, hrun, ← after]
    cases hcell : m.heap.cell id with
    | openAt slot => exact Changes.becomes (x := setSlot slot value) m
    | closed old => exact .single (.assign m id old value hcell)

/-! ### Reading code -/

instance : Changes d chunk := by
  unfold chunk
  infer_instance

instance : Changes d readByte := by
  unfold readByte
  refine .bind inferInstance fun f => .bind inferInstance fun heap => ?_
  dsimp only
  split <;> infer_instance

instance : Changes d readShort := by
  unfold readShort
  infer_instance

instance : Changes d readConstant := by
  unfold readConstant
  refine .bind inferInstance fun index => .bind inferInstance fun chunk => ?_
  split <;> infer_instance

instance : Changes d readName := by
  unfold readName
  refine .bind inferInstance fun value => ?_
  split <;> infer_instance

instance : Changes d readOpcode := by
  unfold readOpcode
  refine .bind inferInstance fun byte => ?_
  split <;> infer_instance

instance : Changes d readCell := by
  unfold readCell
  infer_instance

instance (base : Nat) (around found : Array CellId) (count : Nat) :
    Changes .closure (readCaptures base around found count) := by
  induction count generalizing found with
  | zero =>
    unfold readCaptures
    infer_instance
  | succ count ih =>
    unfold readCaptures
    infer_instance

/-! ## Calls -/

/-- Calling a closure, for anything but the end of the run. -/
theorem enter_changes {purpose : Resume} (h : purpose ≠ .finish) (closure : ClosureId)
    (arguments : UInt8) : Changes d (enter closure arguments purpose) := by
  have hframe : ∀ slots, Changes d (pushFrame ⟨closure, 0, slots, purpose⟩) :=
    fun slots => pushFrame_changes h
  unfold enter
  infer_instance

instance (closure : ClosureId) (arguments : UInt8) : Changes d (enter closure arguments .caller) :=
  enter_changes (by simp) closure arguments

/-- Calling a closure inside an instruction. -/
theorem evaluate_changes {purpose : Resume} (h : purpose ≠ .finish) (closure : ClosureId)
    (receiver : Value) : Changes d (evaluate closure receiver purpose) := by
  have henter : Changes d (enter closure 0 purpose) := enter_changes h closure 0
  unfold evaluate
  infer_instance

instance (closure : ClosureId) (receiver : Value) :
    Changes d (evaluate closure receiver .property) :=
  evaluate_changes (by simp) closure receiver

instance (closure : ClosureId) (receiver : Value) (arguments : UInt8) :
    Changes d (evaluate closure receiver (.invocation arguments)) :=
  evaluate_changes (by simp) closure receiver

instance (closure : ClosureId) (receiver : Value) :
    Changes d (evaluate closure receiver .superProperty) :=
  evaluate_changes (by simp) closure receiver

instance (closure : ClosureId) (receiver : Value) (pending : Description) :
    Changes d (evaluate closure receiver (.description pending)) :=
  evaluate_changes (by simp) closure receiver

instance (purpose : Purpose) (description : String) : Changes d (deliver purpose description) := by
  unfold deliver
  cases purpose.output? description <;> cases purpose.result? description <;> infer_instance

instance (purpose : Purpose) (done : String) (pieces : List Piece) :
    Changes d (describe purpose done pieces) := by
  induction pieces generalizing done with
  | nil =>
    unfold describe
    infer_instance
  | cons piece rest ih =>
    cases piece with
    | text s =>
      unfold describe
      infer_instance
    | leaf value =>
      unfold describe
      refine .bind inferInstance fun heap => ?_
      split <;> infer_instance

instance (function : Native) (arguments : UInt8) : Changes d (callNative function arguments) := by
  have hperform : ∀ (now : Float) (values : List Value), Changes d
      (match function.effect now values with
      | .error e => raise e
      | .ok (.result value) => push value
      | .ok (.describe value purpose) => describe purpose "" value.pieces) := by
    intro now values
    split <;> infer_instance
  unfold callNative
  infer_instance

instance (elements : List Value) (arguments : UInt8) :
    Changes d (callArray elements arguments) := by
  have hread : ∀ index : Value, Changes d (match index with
      | .int i => push (elementAt elements i.toInt)
      | other => raise (.invalidIndex other.kind)) := by
    intro index
    split <;> infer_instance
  unfold callArray
  infer_instance

instance (id : ClassId) (arguments : UInt8) : Changes d (callClass id arguments) := by
  unfold callClass
  refine .bind inferInstance fun instanceId => .bind inferInstance fun _ =>
    .bind inferInstance fun heap => ?_
  split <;> infer_instance

instance (callee : Value) (arguments : UInt8) : Changes d (callValue callee arguments) := by
  unfold callValue
  split
  all_goals try infer_instance
  refine .bind inferInstance fun heap => ?_
  split <;> infer_instance

instance (id : ClassId) (name : String) (arguments : UInt8) :
    Changes d (invokeFrom id name arguments) := by
  unfold invokeFrom
  refine .bind inferInstance fun heap => ?_
  split <;> infer_instance

instance (value : Value) (arguments : UInt8) : Changes d (callInstead value arguments) := by
  unfold callInstead
  infer_instance

instance (name : String) (arguments : UInt8) : Changes d (invoke name arguments) := by
  unfold invoke
  refine .bind inferInstance fun value => ?_
  split
  · refine .bind inferInstance fun heap => ?_
    split
    · infer_instance
    · split <;> infer_instance
  · infer_instance

instance (value : Value) : Changes d (replaceTop value) := by
  unfold replaceTop
  infer_instance

instance (id : InstanceId) (name : String) : Changes d (readProperty id name) := by
  unfold readProperty
  refine .bind inferInstance fun heap => ?_
  split
  · infer_instance
  · split
    · infer_instance
    · split <;> infer_instance

instance (superclass : ClassId) (receiver : InstanceId) (name : String) :
    Changes d (readSuperProperty superclass receiver name) := by
  unfold readSuperProperty
  refine .bind inferInstance fun heap => ?_
  dsimp only
  split
  · infer_instance
  · split <;> infer_instance

/-! ## Instructions -/

instance (f : Value → Except ValueError Value) : Changes d (applyUnary f) := by
  unfold applyUnary
  infer_instance

instance (f : Value → Value → Except ValueError Value) : Changes d (applyBinary f) := by
  unfold applyBinary
  infer_instance

instance (name : String) (value : Value) : Changes d
    (modify fun m => { m with globals := m.globals.insert name value } : Exec Unit) :=
  .of_change fun m => .global m name value

instance : Changes d defineGlobal := by
  unfold defineGlobal
  infer_instance

instance : Changes d getGlobal := by
  unfold getGlobal
  refine .bind inferInstance fun name => .bind inferInstance fun m => ?_
  split <;> infer_instance

instance : Changes d setGlobal := by
  unfold setGlobal
  infer_instance

instance : Changes d getLocal := by
  unfold getLocal
  infer_instance

instance : Changes d setLocal := by
  unfold setLocal
  infer_instance

instance : Changes d getCaptured := by
  unfold getCaptured
  infer_instance

instance : Changes d setCaptured := by
  unfold setCaptured
  infer_instance

instance : Changes d dropCaptured := by
  unfold dropCaptured
  infer_instance

instance : Changes d jump := by
  unfold jump
  infer_instance

instance : Changes d jumpIfFalse := by
  unfold jumpIfFalse
  infer_instance

instance : Changes d loop := by
  unfold loop
  infer_instance

instance : Changes d call := by
  unfold call
  infer_instance

instance : Changes .closure makeClosure := by
  unfold makeClosure
  refine .bind inferInstance fun value => ?_
  split <;> infer_instance

instance : Changes .newClass makeClass := by
  unfold makeClass
  infer_instance

instance : Changes d getProperty := by
  unfold getProperty
  refine .bind inferInstance fun name => .bind inferInstance fun value => ?_
  split <;> infer_instance

instance (id : InstanceId) (name : String) (value : Value) :
    Changes d (modifyHeap (·.setField id name value)) :=
  .of_change fun m => .field m id name value

instance : Changes d setProperty := by
  unfold setProperty
  refine .bind inferInstance fun name => .bind inferInstance fun value =>
    .bind inferInstance fun receiver => ?_
  split <;> infer_instance

instance : Changes d classMember := by
  unfold classMember
  refine .bind inferInstance fun member => ?_
  split
  · refine .bind inferInstance fun value => ?_
    split <;> infer_instance
  · infer_instance

instance (id : ClassId) (name : String) (member : ClosureId) :
    Changes .method (modifyHeap (Heap.defineMethod · id name member)) :=
  .of_change fun m => .method m id name member rfl

instance (id : ClassId) (name : String) (member : ClosureId) :
    Changes .computedProperty (modifyHeap (Heap.defineProperty · id name member)) :=
  .of_change fun m => .property m id name member rfl

instance : Changes .method (addMember Heap.defineMethod) := by
  unfold addMember
  infer_instance

instance : Changes .computedProperty (addMember Heap.defineProperty) := by
  unfold addMember
  infer_instance

instance (subclass superclass : ClassId) :
    Changes .inherit (modifyHeap (·.inherit subclass superclass)) :=
  .of_change fun m => .inherit m subclass superclass rfl

instance : Changes .inherit inherit := by
  unfold inherit
  refine .bind inferInstance fun subclass => ?_
  split
  · refine .bind inferInstance fun superclass => ?_
    split <;> infer_instance
  · infer_instance

instance : Changes d popClass := by
  unfold popClass
  refine .bind inferInstance fun value => ?_
  split <;> infer_instance

instance : Changes d getSuper := by
  unfold getSuper
  refine .bind inferInstance fun name => .bind inferInstance fun superclass =>
    .bind inferInstance fun receiver => ?_
  split <;> infer_instance

instance : Changes d invokeProperty := by
  unfold invokeProperty
  infer_instance

instance : Changes d invokeSuper := by
  unfold invokeSuper
  infer_instance

instance : Changes d arrayLiteral := by
  unfold arrayLiteral
  refine .bind inferInstance fun count => .bind inferInstance fun elements =>
    .bind inferInstance fun m => ?_
  split <;> infer_instance

instance : Changes d print := by
  unfold print
  infer_instance

instance (instruction : Exec Unit) [Changes d instruction] : Changes d (proceed instruction) := by
  unfold proceed
  infer_instance

/-- **Every instruction but a return** is a series of small changes. -/
theorem execute_changes {op : Opcode} (h : op ≠ .ret) : Changes op (execute op) := by
  cases op
  case ret => exact absurd rfl h
  all_goals (unfold execute; infer_instance)

/-- **The use of a result** that does not end the run is a series of small changes. -/
theorem resume_changes {purpose : Resume} (h : purpose ≠ .finish) (value : Value) :
    Changes d (resume value purpose) := by
  cases purpose
  case finish => exact absurd rfl h
  all_goals (unfold resume; infer_instance)

/-- An opcode is read from the code of the call in progress. -/
theorem readOpcode_ok {m m' : Machine} {op : Opcode} (h : readOpcode m = .ok op m') :
    ∃ f rest, m.calls = f :: rest ∧ m' = m.moveTo (f.ip + 1) := by
  cases hcalls : m.calls with
  | nil =>
    have htop : m.frames.top? = none := by
      rw [Stack.top?_eq_head?, show m.frames.down = [] from hcalls]
      rfl
    have herror : readOpcode m = .error StackError.underflow.fault m := by
      show EStateM.bind (EStateM.bind frame _) _ m = _
      rw [EStateM.bind, EStateM.bind, frame, htop]
    rw [herror] at h
    cases h
  | cons f rest =>
    obtain ⟨byte, m₁, hbyte, hop⟩ := exists_of_bind_ok h
    obtain rfl : m₁ = m' := by
      cases hofByte : Opcode.ofByte? byte with
      | none => rw [hofByte] at hop; cases hop
      | some op' =>
        rw [hofByte] at hop
        injection hop
    cases hcode : (m.heap.functionOf f.closure).chunk.code[f.ip]? with
    | none =>
      have herror : readByte m = .error (.internal (.invalidInstructionPointer f.ip
          (m.heap.functionOf f.closure).chunk.size)) m := by
        have hheap : heap m = .ok m.heap m := rfl
        rw [readByte, bind_of_ok (frame_eq hcalls), bind_of_ok hheap, hcode]
        rfl
      rw [herror] at hbyte
      cases hbyte
    | some byte' =>
      rw [readByte_eq_of_ip hcalls hcode] at hbyte
      injection hbyte with _ hm₁
      exact ⟨f, rest, rfl, hm₁.symm⟩

/-- The place that a call has come to does not matter when it is left. -/
theorem unwound_moveTo {m : Machine} {f : Frame} {rest : List Frame} (h : m.calls = f :: rest)
    (ip slots : Nat) : (m.moveTo ip).unwound slots = m.unwound slots := by
  have hframes : (m.moveTo ip).frames.dropTop = m.frames.dropTop := by
    refine Stack.ext_down ?_
    rw [Stack.down_dropTop, Stack.down_dropTop, show m.frames.down = f :: rest from h,
      show (m.moveTo ip).frames.down = { f with ip } :: rest from Machine.calls_moveTo h ip]
    rfl
  simp only [Machine.unwound, hframes]
  rfl

/-- **What a step can do**: its instruction changes the machine in small ways and fails or goes on,
or it leaves the call in progress and uses its result. -/
theorem step_cases (m : Machine) :
    (∃ op, (op = .ret ∨ ∃ m', readOpcode m = .ok op m') ∧ Becomes op m (step.after m) ∧
        ∀ value m', step m ≠ .ok (some value) m') ∨
      ∃ f rest value, m.calls = f :: rest ∧ readOpcode m = .ok .ret (m.moveTo (f.ip + 1)) ∧
        unwind (m.moveTo (f.ip + 1)) = .ok (value, f.resume) (m.unwound f.slots) ∧
        step m = resume value f.resume (m.unwound f.slots) := by
  have hread : ∀ d, Becomes d m (readOpcode.after m) := fun d => Changes.becomes m
  cases hopcode : readOpcode m with
  | error e m₁ =>
    rw [after_of_error hopcode] at hread
    have hstep : step m = .error e m₁ := by
      show EStateM.bind readOpcode execute m = _
      rw [EStateM.bind, hopcode]
    rw [after_of_error hstep]
    exact .inl ⟨.ret, .inl rfl, hread .ret, by simp [hstep]⟩
  | ok op m₁ =>
    rw [after_of_ok hopcode] at hread
    have hstep : step m = execute op m₁ := bind_of_ok hopcode
    by_cases hret : op = .ret
    · subst hret
      obtain ⟨f, rest, hcalls, rfl⟩ := readOpcode_ok hopcode
      change step m = leave (m.moveTo (f.ip + 1)) at hstep
      rw [leave_eq] at hstep
      cases htop : m.stack.top? with
      | none =>
        have herror : step m = .error StackError.underflow.fault (m.moveTo (f.ip + 1)) := by
          rw [hstep]
          show EStateM.bind unwind _ _ = _
          rw [EStateM.bind, unwind_eq_error (m := m.moveTo (f.ip + 1)) htop]
        rw [after_of_error herror]
        exact .inl ⟨.ret, .inl rfl, hread .ret, by simp [herror]⟩
      | some value =>
        have hunwind := unwind_eq_ok (Machine.calls_moveTo hcalls (f.ip + 1)) htop
        dsimp only at hunwind
        rw [unwound_moveTo hcalls] at hunwind
        rw [bind_of_ok hunwind] at hstep
        exact .inr ⟨f, rest, value, hcalls, rfl, hunwind, hstep⟩
    · have hexecute := (execute_changes hret).becomes m₁
      refine .inl ⟨op, .inr ⟨m₁, rfl⟩, (hread op).trans ?_, fun value m' hend => ?_⟩
      · rwa [after, hstep, ← after]
      · exact absurd (execute_eq_none hret (hstep ▸ hend)) (by simp)

end Exec

/-! ## What stays as it is -/

namespace Machine

variable {m m' : Machine} {op : Opcode}

/-- The call that is left is the innermost one. -/
theorem calls_unwound {f : Frame} {rest : List Frame} (h : m.calls = f :: rest) (slots : Nat) :
    (m.unwound slots).calls = rest := by
  show m.frames.dropTop.down = rest
  rw [Stack.down_dropTop]
  exact congrArg List.tail h

/-- Only cells change when cells are closed. -/
theorem heap_closeCells (m : Machine) (bottom : Nat) :
    ∃ cells, (m.closeCells bottom).heap = { m.heap with cells } := by
  have hcells : ∀ (ids : List CellId) (heap : Heap),
      ∃ cells, ids.foldl (closeCell m.stack) heap = { heap with cells } := by
    intro ids
    induction ids with
    | nil => exact fun heap => ⟨heap.cells, rfl⟩
    | cons id rest ih =>
      intro heap
      obtain ⟨cells, hrest⟩ := ih (closeCell m.stack heap id)
      refine ⟨cells, ?_⟩
      rw [List.foldl_cons, hrest, closeCell]
      split <;> rfl
  exact hcells _ _

/-- Classes stay as they are where none is being declared. -/
theorem Change.classes (h : m.Change op m') (hop : op.declares = false) :
    m'.heap.classes = m.heap.classes := by
  cases h with
  | close bottom =>
    obtain ⟨cells, hcells⟩ := m.heap_closeCells bottom
    rw [hcells]
  | newClass _ h => cases hop.symm.trans h
  | method _ _ _ h => cases hop.symm.trans h
  | property _ _ _ h => cases hop.symm.trans h
  | inherit _ _ h => cases hop.symm.trans h
  | _ => rfl

/-- Closures stay as they are where none is being made. -/
theorem Change.closures (h : m.Change op m') (hop : op ≠ .closure) :
    m'.heap.closures = m.heap.closures := by
  cases h with
  | close bottom =>
    obtain ⟨cells, hcells⟩ := m.heap_closeCells bottom
    rw [hcells]
  | newClosure _ h => exact absurd h hop
  | _ => rfl

/-- The closures that there are stay as they are. -/
theorem Change.isPrefix_closures (h : m.Change op m') :
    m.heap.closures.toList <+: m'.heap.closures.toList := by
  cases h with
  | close bottom =>
    obtain ⟨cells, hcells⟩ := m.heap_closeCells bottom
    exact hcells ▸ List.prefix_rfl
  | newClosure c _ =>
    show _ <+: (m.heap.closures.push c).toList
    rw [Array.toList_push]
    exact List.prefix_append _ _
  | _ => exact List.prefix_rfl

/-- How each small change relates the heaps is how all of them do. -/
theorem Becomes.relates {R : Heap → Heap → Prop} (hrefl : ∀ heap, R heap heap)
    (htrans : ∀ {a b c : Heap}, R a b → R b c → R a c) (h : m.Becomes op m')
    (hchange : ∀ {m₁ m₂ : Machine}, m₁.Change op m₂ → R m₁.heap m₂.heap) : R m.heap m'.heap := by
  induction h with
  | refl => exact hrefl _
  | tail _ hlast ih => exact htrans ih (hchange hlast)

/-- What each small change keeps of the heap is kept by all of them. -/
theorem Becomes.keeps {β : Type} (part : Heap → β) (h : m.Becomes op m')
    (hchange : ∀ {m₁ m₂ : Machine}, m₁.Change op m₂ → part m₂.heap = part m₁.heap) :
    part m'.heap = part m.heap :=
  h.relates (R := fun a b => part b = part a) (fun _ => rfl) (fun h₁ h₂ => h₂.trans h₁) hchange

end Machine

namespace Exec

variable {m : Machine}

/-- **How each small change of its instruction relates the heaps** is how a step does. -/
theorem relates_step {R : Heap → Heap → Prop} (hrefl : ∀ heap, R heap heap)
    (htrans : ∀ {a b c : Heap}, R a b → R b c → R a c)
    (hchange : ∀ op, (op = .ret ∨ ∃ m', readOpcode m = .ok op m') →
      ∀ {m₁ m₂ : Machine}, m₁.Change op m₂ → R m₁.heap m₂.heap) :
    R m.heap (step.after m).heap := by
  rcases step_cases m with ⟨op, hop, hbecomes, -⟩ | ⟨f, rest, value, -, -, -, hstep⟩
  · exact hbecomes.relates hrefl htrans (hchange op hop)
  · have hclosed := hchange .ret (.inl rfl)
      (.close { m with stack := m.stack.dropTop, frames := m.frames.dropTop } f.slots)
    have hunwound : R m.heap (m.unwound f.slots).heap := hclosed
    rw [after, hstep, ← after]
    by_cases hfinish : f.resume = .finish
    · rw [hfinish]
      exact hunwound
    · have hresume := (@resume_changes .ret _ hfinish value).becomes (m.unwound f.slots)
      exact htrans hunwound (hresume.relates hrefl htrans (hchange .ret (.inl rfl)))

/-- **What each small change of its instruction keeps** of the heap is kept by a step. -/
theorem keeps_step {β : Type} (part : Heap → β)
    (hchange : ∀ op, (op = .ret ∨ ∃ m', readOpcode m = .ok op m') →
      ∀ {m₁ m₂ : Machine}, m₁.Change op m₂ → part m₂.heap = part m₁.heap) :
    part (step.after m).heap = part m.heap :=
  relates_step (R := fun a b => part b = part a) (fun _ => rfl) (fun h₁ h₂ => h₂.trans h₁) hchange

/-- **A step leaves the closures** that there are as they are. -/
theorem isPrefix_closures_step (m : Machine) :
    m.heap.closures.toList <+: (step.after m).heap.closures.toList :=
  relates_step (R := fun a b => a.closures.toList <+: b.closures.toList)
    (fun _ => List.prefix_rfl) (fun h₁ h₂ => h₁.trans h₂) fun _ _ _ _ h => h.isPrefix_closures

/-- **An instruction that declares nothing** leaves the classes as they are. -/
theorem classes_step (h : ∀ op m', readOpcode m = .ok op m' → op.declares = false) :
    (step.after m).heap.classes = m.heap.classes := by
  refine keeps_step Heap.classes fun op hop _ _ hchange => hchange.classes ?_
  rcases hop with rfl | ⟨m', hread⟩
  · rfl
  · exact h op m' hread

/-- **An instruction that makes no closure** leaves the closures as they are. -/
theorem closures_step (h : ∀ op m', readOpcode m = .ok op m' → op ≠ .closure) :
    (step.after m).heap.closures = m.heap.closures := by
  refine keeps_step Heap.closures fun op hop _ _ hchange => hchange.closures ?_
  rcases hop with rfl | ⟨m', hread⟩
  · simp
  · exact h op m' hread

end Exec

/-- A step leaves the functions alone. -/
theorem Machine.functions_step (m : Machine) :
    (Exec.step.after m).heap.functions = m.heap.functions :=
  Exec.keeps_step Heap.functions fun _ _ m₁ _ hchange => by
    cases hchange with
    | close bottom =>
      obtain ⟨cells, hcells⟩ := m₁.heap_closeCells bottom
      rw [hcells]
    | _ => rfl

/-- The functions of closures that there are stay. -/
theorem Machine.functionOf_step {m : Machine} {id : ClosureId}
    (h : id.index < m.heap.closures.size) :
    (Exec.step.after m).heap.functionOf id = m.heap.functionOf id := by
  have hclosure : (Exec.step.after m).heap.closure id = m.heap.closure id := by
    have hkept := getElem?_of_isPrefix (Exec.isPrefix_closures_step m)
      (Array.getElem?_toList.trans (Array.getElem?_eq_getElem h))
    rw [Array.getElem?_toList] at hkept
    rw [Heap.closure, Heap.closure, Array.getD_eq_getD_getElem?, Array.getD_eq_getD_getElem?, hkept,
      Array.getElem?_eq_getElem h]
  rw [Heap.functionOf, Heap.functionOf, hclosure, Heap.function, Heap.function, m.functions_step]

theorem Machine.size_closures_step (m : Machine) :
    m.heap.closures.size ≤ (Exec.step.after m).heap.closures.size := by
  have hle := (Exec.isPrefix_closures_step m).length_le
  rwa [Array.length_toList, Array.length_toList] at hle

end ScriptVM
