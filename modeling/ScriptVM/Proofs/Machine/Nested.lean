/-
# Calls inside instructions

An instruction that reads a computed property, or describes an instance, runs a call of the program
before it is complete.  `Machine.valueOf` runs such a call to its end and gives its result; it knows
nothing of what the result is for.

Main statements: before it is left, a call runs the same way whatever its result is for
(`stepAbove_swapped`), so an instruction that waits for a value goes on exactly as the value says
once it is there (`Machine.advance_evaluate`).
-/
import ScriptVM.Proofs.Machine.Views

namespace ScriptVM

/-! ## Values of calls -/

namespace Exec

/-- A part of a run succeeds if both of its parts do, one behind the other. -/
theorem exists_of_bind_ok {α β : Type} {x : Exec α} {f : α → Exec β} {m m' : Machine} {b : β}
    (h : (x >>= f) m = .ok b m') : ∃ a m₁, x m = .ok a m₁ ∧ f a m₁ = .ok b m' := by
  change EStateM.bind x f m = .ok b m' at h
  rw [EStateM.bind] at h
  split at h
  · next a m₁ hx => exact ⟨a, m₁, hx, h⟩
  · cases h

/-- Leaves the call in progress; its result, and what the result is for. -/
def unwind : Exec (Value × Resume) := do
  let result ← pop
  let f ← popFrame
  closeCells f.slots
  modify fun m => { m with stack := m.stack.truncate f.slots }
  return (result, f.resume)

/-- A call is left first, and then its result is used. -/
theorem leave_eq : leave = unwind >>= fun outcome => resume outcome.1 outcome.2 := by
  funext m
  simp only [leave, unwind, bind_assoc, pure_bind]

/-- Does the next instruction of the calls above `floor` others; the result of the lowest of them,
when it is left. -/
def stepAbove (floor : Nat) : Exec (Option Value) := do
  let op ← readOpcode
  if op = .ret ∧ (← get).frames.size = floor + 1 then
    return some (← unwind).1
  else
    execute op

end Exec

namespace Machine

/-- Goes on with the calls above `floor` others for a number of steps, until the lowest of them is
left with a result. -/
def advanceAbove (floor : Nat) : Nat → Machine → Progress
  | 0, m => .running m
  | steps + 1, m =>
    match Exec.stepAbove floor m with
    | .ok none m => advanceAbove floor steps m
    | .ok (some value) m => .finished value m
    | .error fault m => .failed fault m

/-- The value that a closure without arguments gives for a receiver, inside an instruction. -/
def valueOf (steps : Nat) (m : Machine) (closure : ClosureId) (receiver : Value) : Progress :=
  match Exec.evaluate closure receiver .property m with
  | .ok _ m' => advanceAbove m.frames.size steps m'
  | .error fault m' => .failed fault m'

end Machine

theorem Stack.ext_down {α : Type} {capacity : Nat} {s t : Stack α capacity} (h : s.down = t.down) :
    s = t := by
  refine Stack.ext_items (Array.toList_inj.1 ?_)
  exact List.reverse_inj.1 h

/-- The call, apart from what its result is for. -/
def Frame.place (f : Frame) : ClosureId × Nat × Nat :=
  (f.closure, f.ip, f.slots)

/-- Two machines are the same, apart from what the results of their calls are for. -/
structure Machine.Alike (m n : Machine) : Prop where
  /-- The objects are the same. -/
  heap : n.heap = m.heap
  /-- The global variables are the same. -/
  globals : n.globals = m.globals
  /-- The values on the stack are the same. -/
  stack : n.stack = m.stack
  /-- The calls are the same. -/
  calls : n.calls.map Frame.place = m.calls.map Frame.place
  /-- The open cells are the same. -/
  openCells : n.openCells = m.openCells
  /-- The output is the same. -/
  sink : n.sink = m.sink
  /-- The time is the same. -/
  now : n.now = m.now

/-! ## Machines that differ in one call -/

/-- Two machines are the same, but the results of their calls above `floor` others are for two
different things.  No call above that one ends the run. -/
structure Swapped (floor : Nat) (r r' : Resume) (m n : Machine) : Prop where
  /-- All but the calls is the same. -/
  rest : ∃ frames, n = { m with frames }
  /-- The calls differ in one place. -/
  calls : ∃ (above : List Frame) (f : Frame) (below : List Frame),
    m.calls = above ++ { f with resume := r } :: below ∧
    n.calls = above ++ { f with resume := r' } :: below ∧ below.length = floor ∧
    ∀ g ∈ above, g.resume ≠ .finish

/-- Machines that differ in one call are alike. -/
theorem Swapped.alike {floor : Nat} {r r' : Resume} {m n : Machine} (h : Swapped floor r r' m n) :
    m.Alike n := by
  obtain ⟨⟨frames, rfl⟩, above, f, below, hm, hn, -, -⟩ := h
  refine ⟨rfl, rfl, rfl, ?_, rfl, rfl, rfl⟩
  rw [hm, hn]
  simp [Frame.place]

namespace Exec

variable {α β : Type} {floor : Nat} {r r' : Resume}

/-- Two parts of runs come out the same way, on machines that differ in one call. -/
def Agrees (floor : Nat) (r r' : Resume) : EStateM.Result Fault Machine α →
    EStateM.Result Fault Machine α → Prop
  | .ok a m, .ok b n => a = b ∧ Swapped floor r r' m n
  | .error e m, .error e' n => e = e' ∧ Swapped floor r r' m n
  | _, _ => False

/-- A part of a run that does not look at what the results of calls are for. -/
class Indifferent (floor : Nat) (r r' : Resume) (x : Exec α) : Prop where
  /-- It comes out the same way on machines that differ in one call. -/
  agrees : ∀ {m n}, Swapped floor r r' m n → Agrees floor r r' (x m) (x n)

/-- A part of a run that neither looks at the calls nor changes them. -/
class Frameless (x : Exec α) : Prop where
  /-- With other calls it comes out the same way. -/
  eq : ∀ m frames, x { m with frames } =
    match x m with
    | .ok a m' => .ok a { m' with frames }
    | .error e m' => .error e { m' with frames }

section

variable {x : Exec α} {f : α → Exec β}

instance (a : α) : Frameless (pure a : Exec α) := ⟨fun _ _ => rfl⟩

instance (e : Fault) : Frameless (throw e : Exec α) := ⟨fun _ _ => rfl⟩

instance [Frameless x] [∀ a, Frameless (f a)] : Frameless (x >>= f) where
  eq m frames := by
    have hx := Frameless.eq (x := x) m frames
    simp only [Bind.bind, EStateM.bind]
    cases hm : x m with
    | ok a m' =>
      rw [hm] at hx
      rw [hx]
      exact Frameless.eq (x := f a) m' frames
    | error e m' =>
      rw [hm] at hx
      rw [hx]

theorem Frameless.bind (hx : Frameless x) (hf : ∀ a, Frameless (f a)) : Frameless (x >>= f) :=
  inferInstance

instance (c : Prop) [Decidable c] (x y : Exec α) [Frameless x] [Frameless y] :
    Frameless (if c then x else y) := by
  split <;> infer_instance

/-- A part of a run that looks at the machine, but not at the calls. -/
theorem Frameless.of_get {g : Machine → Exec α} (hg : ∀ m frames, g { m with frames } = g m)
    (h : ∀ m, Frameless (g m)) : Frameless (get >>= g) where
  eq m frames := by
    show g { m with frames } { m with frames } = _
    rw [hg]
    exact (h m).eq m frames

/-- What does not look at the calls leaves them if it succeeds. -/
theorem Frameless.frames_of_ok [Frameless x] {m m' : Machine} {a : α} (h : x m = .ok a m') :
    m'.frames = m.frames := by
  have hm := Frameless.eq (x := x) m m.frames
  change x m = _ at hm
  rw [h] at hm
  injection hm with _ hm
  rw [hm]

/-- What does not look at the calls leaves them if it fails. -/
theorem Frameless.frames_of_error [Frameless x] {m m' : Machine} {e : Fault}
    (h : x m = .error e m') : m'.frames = m.frames := by
  have hm := Frameless.eq (x := x) m m.frames
  change x m = _ at hm
  rw [h] at hm
  injection hm with _ hm
  rw [hm]

/-- What leaves the calls alone does not look at what they are for. -/
instance [Frameless x] : Indifferent floor r r' x where
  agrees {m n} h := by
    obtain ⟨⟨frames, rfl⟩, hcalls⟩ := h
    rw [Frameless.eq (x := x) m frames]
    cases hx : x m with
    | ok a m' =>
      refine ⟨rfl, ⟨frames, rfl⟩, ?_⟩
      rw [Machine.calls, Frameless.frames_of_ok hx]
      exact hcalls
    | error e m' =>
      refine ⟨rfl, ⟨frames, rfl⟩, ?_⟩
      rw [Machine.calls, Frameless.frames_of_error hx]
      exact hcalls

instance [Indifferent floor r r' x] [∀ a, Indifferent floor r r' (f a)] :
    Indifferent floor r r' (x >>= f) where
  agrees {m n} h := by
    have hx := Indifferent.agrees (x := x) h
    simp only [Bind.bind, EStateM.bind]
    revert hx
    cases x m with
    | ok a m' =>
      cases x n with
      | ok b n' =>
        rintro ⟨rfl, h'⟩
        exact Indifferent.agrees (x := f a) h'
      | error e' n' => exact False.elim
    | error e m' =>
      cases x n with
      | ok b n' => exact False.elim
      | error e' n' => exact id

theorem Indifferent.bind (hx : Indifferent floor r r' x)
    (hf : ∀ a, Indifferent floor r r' (f a)) : Indifferent floor r r' (x >>= f) :=
  inferInstance

instance (c : Prop) [Decidable c] (x y : Exec α) [Indifferent floor r r' x]
    [Indifferent floor r r' y] : Indifferent floor r r' (if c then x else y) := by
  split <;> infer_instance

end

/-! ## Parts of instructions -/

instance (e : RuntimeError) : Frameless (raise e : Exec α) := ⟨fun _ _ => rfl⟩

instance (e : Defect) : Frameless (defect e : Exec α) := ⟨fun _ _ => rfl⟩

instance (outcome : Except StackError α) : Frameless (ofStack outcome) := by
  cases outcome <;> (unfold ofStack; infer_instance)

instance (outcome : Except ValueError α) : Frameless (ofOperator outcome) := by
  cases outcome <;> (unfold ofOperator; infer_instance)

instance : Frameless heap := ⟨fun _ _ => rfl⟩

instance (make : Heap → α × Heap) : Frameless (allocate make) := ⟨fun _ _ => rfl⟩

instance (f : Heap → Heap) : Frameless (modifyHeap f) := ⟨fun _ _ => rfl⟩

instance (text : String) : Frameless (write text) := ⟨fun _ _ => rfl⟩

instance (value : Value) : Frameless (push value) where
  eq m frames := by
    by_cases h : m.stack.size < stackLimit
    · simp only [push, dif_pos h]
    · simp only [push, dif_neg h]

instance : Frameless pop where
  eq m frames := by
    unfold pop
    cases m.stack.top? <;> rfl

instance (n : Nat) : Frameless (popMany n) where
  eq m frames := by
    by_cases h : n ≤ m.stack.size
    · simp only [popMany, if_pos h]
    · simp only [popMany, if_neg h]

instance (slot : Nat) (value : Value) : Frameless (setSlot slot value) where
  eq m frames := by
    by_cases h : slot < m.stack.size
    · simp only [setSlot, if_pos h]
    · simp only [setSlot, if_neg h]

instance (distance : Nat) : Frameless (peek distance) :=
  .of_get (fun _ _ => rfl) inferInstance

instance (slot : Nat) : Frameless (getSlot slot) :=
  .of_get (fun _ _ => rfl) inferInstance

instance (arguments : UInt8) : Frameless (calleeSlot arguments) :=
  .of_get (fun _ _ => rfl) inferInstance

instance (arguments : UInt8) (value : Value) : Frameless (setCallee arguments value) := by
  unfold setCallee
  infer_instance

instance (bottom : Nat) : Frameless (closeCells bottom) := ⟨fun _ _ => rfl⟩

instance (slot : Nat) : Frameless (captureSlot slot) where
  eq m frames := by
    simp only [captureSlot]
    cases m.openCells.find? fun id => (m.heap.cell id).slot? = some slot <;> rfl

instance (captures : Array CellId) (index : Nat) : Frameless (capturedCell captures index) := by
  unfold capturedCell
  split <;> infer_instance

instance (id : CellId) : Frameless (getCell id) := by
  unfold getCell
  refine .bind inferInstance fun heap => ?_
  split <;> infer_instance

instance (id : CellId) (value : Value) : Frameless (setCell id value) := by
  unfold setCell
  refine .bind inferInstance fun heap => ?_
  split <;> infer_instance

/-- The machine may be looked at, but not its calls. -/
theorem Indifferent.of_get {g : Machine → Exec α} (hg : ∀ m frames, g { m with frames } = g m)
    (h : ∀ m, Indifferent floor r r' (g m)) : Indifferent floor r r' (get >>= g) where
  agrees {m n} hmn := by
    show Agrees floor r r' (g m m) (g n n)
    have hn : g n = g m := by
      obtain ⟨⟨frames, rfl⟩, -⟩ := hmn
      exact hg m frames
    rw [hn]
    exact (h m).agrees hmn

/-- The call in progress may be the one that differs, so only its place may be looked at. -/
theorem Indifferent.of_frame {g : Frame → Exec α}
    (hg : ∀ f purpose, g { f with resume := purpose } = g f)
    (h : ∀ f, Indifferent floor r r' (g f)) : Indifferent floor r r' (frame >>= g) where
  agrees {m n} hmn := by
    obtain ⟨above, f, below, hm, hn, -, -⟩ := hmn.calls
    cases above with
    | nil =>
      show Agrees floor r r' (EStateM.bind frame g m) (EStateM.bind frame g n)
      rw [EStateM.bind, EStateM.bind, frame_eq hm, frame_eq hn]
      show Agrees floor r r' (g { f with resume := r } m) (g { f with resume := r' } n)
      rw [hg f r, hg f r']
      exact (h f).agrees hmn
    | cons top above =>
      show Agrees floor r r' (EStateM.bind frame g m) (EStateM.bind frame g n)
      rw [EStateM.bind, EStateM.bind, frame_eq hm, frame_eq hn]
      exact (h top).agrees hmn

instance (ip : Nat) : Indifferent floor r r' (goTo ip) where
  agrees {m n} h := by
    obtain ⟨⟨frames, rfl⟩, above, f, below, hm, hn, hfloor, hfinish⟩ := h
    refine ⟨rfl, ⟨_, rfl⟩, ?_⟩
    cases above with
    | nil =>
      exact ⟨[], { f with ip }, below, Machine.calls_moveTo hm ip, Machine.calls_moveTo hn ip,
        hfloor, hfinish⟩
    | cons top above =>
      refine ⟨{ top with ip } :: above, f, below, Machine.calls_moveTo hm ip,
        Machine.calls_moveTo hn ip, hfloor, fun g hg => ?_⟩
      rcases List.mem_cons.1 hg with rfl | hg
      · exact hfinish top List.mem_cons_self
      · exact hfinish g (List.mem_cons_of_mem _ hg)

/-- Machines that differ in one call have as many calls. -/
theorem Swapped.size_eq {m n : Machine} (h : Swapped floor r r' m n) :
    n.frames.size = m.frames.size := by
  obtain ⟨above, f, below, hm, hn, -, -⟩ := h.calls
  rw [← Stack.length_down, ← Stack.length_down, show m.frames.down = _ from hm,
    show n.frames.down = _ from hn]
  simp

/-- A call that does not end the run is started. -/
theorem pushFrame_indifferent {f : Frame} (hf : f.resume ≠ .finish) :
    Indifferent floor r r' (pushFrame f) where
  agrees {m n} h := by
    have hsize := Swapped.size_eq h
    obtain ⟨⟨frames, rfl⟩, above, g, below, hm, hn, hfloor, hfinish⟩ := id h
    have hsize : frames.size = m.frames.size := hsize
    unfold pushFrame
    by_cases hlt : m.frames.size < frameLimit
    · rw [dif_pos hlt, dif_pos (by omega)]
      refine ⟨rfl, ⟨_, rfl⟩, f :: above, g, below, ?_, ?_, hfloor, fun k hk => ?_⟩
      · rw [Machine.calls, Stack.down_pushOf]
        exact congrArg (f :: ·) hm
      · rw [Machine.calls, Stack.down_pushOf]
        exact congrArg (f :: ·) hn
      · rcases List.mem_cons.1 hk with rfl | hk
        · exact hf
        · exact hfinish k hk
    · rw [dif_neg hlt, dif_neg (by omega)]
      exact ⟨rfl, h⟩

/-- The nesting of calls inside instructions does not depend on which of them a call is in. -/
theorem Swapped.nesting_eq {m n : Machine} (hr : r.isNested = true) (hr' : r'.isNested = true)
    (h : Swapped floor r r' m n) : n.nesting = m.nesting := by
  obtain ⟨above, f, below, hm, hn, -, -⟩ := h.calls
  have hcount : ∀ k : Machine, k.nesting = k.calls.countP (·.resume.isNested) := by
    intro k
    rw [Machine.nesting, Machine.calls, Stack.down, List.countP_reverse]
  rw [hcount, hcount, hm, hn]
  simp [hr, hr']

/-! ## Reading code -/

instance : Indifferent floor r r' chunk :=
  .of_frame (fun _ _ => rfl) inferInstance

instance : Indifferent floor r r' readByte := by
  refine .of_frame (fun _ _ => rfl) fun f => ?_
  refine .bind inferInstance fun heap => ?_
  dsimp only
  split <;> infer_instance

instance : Indifferent floor r r' readShort := by
  unfold readShort
  infer_instance

instance : Indifferent floor r r' readConstant := by
  unfold readConstant
  refine .bind inferInstance fun index => .bind inferInstance fun chunk => ?_
  split <;> infer_instance

instance : Indifferent floor r r' readName := by
  unfold readName
  refine .bind inferInstance fun value => ?_
  split <;> infer_instance

instance : Indifferent floor r r' readOpcode := by
  unfold readOpcode
  refine .bind inferInstance fun byte => ?_
  split <;> infer_instance

instance : Indifferent floor r r' readCell := by
  unfold readCell
  exact .bind inferInstance fun _ => .of_frame (fun _ _ => rfl) inferInstance

instance (base : Nat) (around found : Array CellId) (count : Nat) :
    Indifferent floor r r' (readCaptures base around found count) := by
  induction count generalizing found with
  | zero =>
    unfold readCaptures
    infer_instance
  | succ count ih =>
    unfold readCaptures
    infer_instance

/-! ## Calls -/

/-- Calling a closure, for anything but the end of the run. -/
theorem enter_indifferent {purpose : Resume} (h : purpose ≠ .finish) (closure : ClosureId)
    (arguments : UInt8) : Indifferent floor r r' (enter closure arguments purpose) := by
  have hframe : ∀ slots, Indifferent floor r r' (pushFrame ⟨closure, 0, slots, purpose⟩) :=
    fun slots => pushFrame_indifferent h
  unfold enter
  infer_instance

instance (closure : ClosureId) (arguments : UInt8) :
    Indifferent floor r r' (enter closure arguments .caller) :=
  enter_indifferent (by simp) closure arguments

section

variable [hr : Fact (r.isNested = true)] [hr' : Fact (r'.isNested = true)]

/-- Calling a closure inside an instruction. -/
theorem evaluate_indifferent {purpose : Resume} (h : purpose ≠ .finish) (closure : ClosureId)
    (receiver : Value) : Indifferent floor r r' (evaluate closure receiver purpose) where
  agrees {m n} hmn := by
    have henter : Indifferent floor r r' (enter closure 0 purpose) :=
      enter_indifferent h closure 0
    have hrest : ∀ depth, Indifferent floor r r' (do
        if nestingLimit ≤ depth then raise .stackOverflow
        push receiver
        enter closure 0 purpose) := inferInstance
    have hagrees := (hrest m.nesting).agrees hmn
    have hn : evaluate closure receiver purpose n = (do
        if nestingLimit ≤ m.nesting then raise .stackOverflow
        push receiver
        enter closure 0 purpose : Exec Unit) n := by
      rw [← Swapped.nesting_eq hr.out hr'.out hmn]
      rfl
    rw [hn]
    exact hagrees

instance (closure : ClosureId) (receiver : Value) :
    Indifferent floor r r' (evaluate closure receiver .property) :=
  evaluate_indifferent (by simp) closure receiver

instance (closure : ClosureId) (receiver : Value) (arguments : UInt8) :
    Indifferent floor r r' (evaluate closure receiver (.invocation arguments)) :=
  evaluate_indifferent (by simp) closure receiver

instance (closure : ClosureId) (receiver : Value) :
    Indifferent floor r r' (evaluate closure receiver .superProperty) :=
  evaluate_indifferent (by simp) closure receiver

instance (closure : ClosureId) (receiver : Value) (pending : Description) :
    Indifferent floor r r' (evaluate closure receiver (.description pending)) :=
  evaluate_indifferent (by simp) closure receiver

instance (purpose : Purpose) (description : String) : Frameless (deliver purpose description) := by
  unfold deliver
  cases purpose.output? description <;> cases purpose.result? description <;> infer_instance

instance (purpose : Purpose) (done : String) (pieces : List Piece) :
    Indifferent floor r r' (describe purpose done pieces) := by
  induction pieces generalizing done with
  | nil =>
    unfold describe
    infer_instance
  | cons piece rest ih =>
    cases piece with
    | text s =>
      unfold describe
      infer_instance
    | leaf value =>
      unfold describe
      refine .bind inferInstance fun heap => ?_
      split <;> infer_instance

instance (function : Native) (arguments : UInt8) :
    Indifferent floor r r' (callNative function arguments) := by
  have hperform : ∀ values : List Value, Indifferent floor r r' (do
      match function.effect (← get).now values with
      | .error e => raise e
      | .ok (.result value) => push value
      | .ok (.describe value purpose) => describe purpose "" value.pieces) := by
    intro values
    refine .of_get (fun _ _ => rfl) fun m => ?_
    split <;> infer_instance
  unfold callNative
  infer_instance

instance (elements : List Value) (arguments : UInt8) :
    Frameless (callArray elements arguments) := by
  unfold callArray
  have hread : ∀ index : Value, Frameless (match index with
      | .int i => push (elementAt elements i.toInt)
      | other => raise (.invalidIndex other.kind)) := by
    intro index
    split <;> infer_instance
  infer_instance

instance (id : ClassId) (arguments : UInt8) : Indifferent floor r r' (callClass id arguments) := by
  unfold callClass
  refine .bind inferInstance fun instanceId => .bind inferInstance fun _ =>
    .bind inferInstance fun heap => ?_
  split <;> infer_instance

instance (callee : Value) (arguments : UInt8) :
    Indifferent floor r r' (callValue callee arguments) := by
  unfold callValue
  split
  all_goals try infer_instance
  refine .bind inferInstance fun heap => ?_
  split <;> infer_instance

instance (id : ClassId) (name : String) (arguments : UInt8) :
    Indifferent floor r r' (invokeFrom id name arguments) := by
  unfold invokeFrom
  refine .bind inferInstance fun heap => ?_
  split <;> infer_instance

instance (value : Value) (arguments : UInt8) :
    Indifferent floor r r' (callInstead value arguments) := by
  unfold callInstead
  infer_instance

instance (name : String) (arguments : UInt8) : Indifferent floor r r' (invoke name arguments) := by
  unfold invoke
  refine .bind inferInstance fun value => ?_
  split
  · refine .bind inferInstance fun heap => ?_
    split
    · infer_instance
    · split <;> infer_instance
  · infer_instance

instance (value : Value) : Frameless (replaceTop value) := by
  unfold replaceTop
  infer_instance

instance (id : InstanceId) (name : String) : Indifferent floor r r' (readProperty id name) := by
  unfold readProperty
  refine .bind inferInstance fun heap => ?_
  split
  · infer_instance
  · split
    · infer_instance
    · split <;> infer_instance

instance (superclass : ClassId) (receiver : InstanceId) (name : String) :
    Indifferent floor r r' (readSuperProperty superclass receiver name) := by
  unfold readSuperProperty
  refine .bind inferInstance fun heap => ?_
  dsimp only
  split
  · infer_instance
  · split <;> infer_instance

/-! ## Instructions -/

instance (f : Value → Except ValueError Value) : Frameless (applyUnary f) := by
  unfold applyUnary
  infer_instance

instance (f : Value → Value → Except ValueError Value) : Frameless (applyBinary f) := by
  unfold applyBinary
  infer_instance

instance : Indifferent floor r r' defineGlobal := by
  have hdefine : ∀ name value, Frameless
      (modify fun m => { m with globals := m.globals.insert name value } : Exec Unit) :=
    fun _ _ => ⟨fun _ _ => rfl⟩
  unfold defineGlobal
  infer_instance

instance : Indifferent floor r r' getGlobal := by
  unfold getGlobal
  refine .bind inferInstance fun name => .of_get (fun _ _ => rfl) fun m => ?_
  split <;> infer_instance

instance : Indifferent floor r r' setGlobal := by
  have hassign : ∀ name value, Frameless
      (modify fun m => { m with globals := m.globals.insert name value } : Exec Unit) :=
    fun _ _ => ⟨fun _ _ => rfl⟩
  unfold setGlobal
  exact .bind inferInstance fun name => .of_get (fun _ _ => rfl) fun m => inferInstance

instance : Indifferent floor r r' getLocal := by
  unfold getLocal
  exact .bind inferInstance fun _ => .of_frame (fun _ _ => rfl) fun f => inferInstance

instance : Indifferent floor r r' setLocal := by
  unfold setLocal
  exact .bind inferInstance fun _ => .of_frame (fun _ _ => rfl) fun f => inferInstance

instance : Indifferent floor r r' getCaptured := by
  unfold getCaptured
  infer_instance

instance : Indifferent floor r r' setCaptured := by
  unfold setCaptured
  infer_instance

instance : Frameless dropCaptured :=
  .of_get (fun _ _ => rfl) inferInstance

instance : Indifferent floor r r' jump := by
  unfold jump
  exact .bind inferInstance fun _ => .of_frame (fun _ _ => rfl) fun f => inferInstance

instance : Indifferent floor r r' jumpIfFalse := by
  have hjump : ∀ distance, Indifferent floor r r' (do goTo ((← frame).ip + distance)) :=
    fun _ => .of_frame (fun _ _ => rfl) fun f => inferInstance
  unfold jumpIfFalse
  infer_instance

instance : Indifferent floor r r' loop := by
  unfold loop
  exact .bind inferInstance fun _ => .of_frame (fun _ _ => rfl) fun f => inferInstance

instance : Indifferent floor r r' call := by
  unfold call
  infer_instance

instance : Indifferent floor r r' makeClosure := by
  unfold makeClosure
  refine .bind inferInstance fun value => ?_
  split
  · infer_instance
  · exact .of_frame (fun _ _ => rfl) fun f => inferInstance

instance : Indifferent floor r r' makeClass := by
  unfold makeClass
  infer_instance

instance : Indifferent floor r r' getProperty := by
  unfold getProperty
  refine .bind inferInstance fun name => .bind inferInstance fun value => ?_
  split <;> infer_instance

instance : Indifferent floor r r' setProperty := by
  unfold setProperty
  refine .bind inferInstance fun name => .bind inferInstance fun value =>
    .bind inferInstance fun receiver => ?_
  split <;> infer_instance

instance : Frameless classMember := by
  unfold classMember
  refine .bind inferInstance fun member => ?_
  split
  · refine .bind inferInstance fun value => ?_
    split <;> infer_instance
  · infer_instance

instance (define : Heap → ClassId → String → ClosureId → Heap) :
    Indifferent floor r r' (addMember define) := by
  unfold addMember
  infer_instance

instance : Frameless inherit := by
  unfold inherit
  refine .bind inferInstance fun subclass => ?_
  split
  · refine .bind inferInstance fun superclass => ?_
    split <;> infer_instance
  · infer_instance

instance : Frameless popClass := by
  unfold popClass
  refine .bind inferInstance fun value => ?_
  split <;> infer_instance

instance : Indifferent floor r r' getSuper := by
  unfold getSuper
  refine .bind inferInstance fun name => .bind inferInstance fun superclass =>
    .bind inferInstance fun receiver => ?_
  split <;> infer_instance

instance : Indifferent floor r r' invokeProperty := by
  unfold invokeProperty
  infer_instance

instance : Indifferent floor r r' invokeSuper := by
  unfold invokeSuper
  infer_instance

instance : Indifferent floor r r' arrayLiteral := by
  unfold arrayLiteral
  refine .bind inferInstance fun count => .bind inferInstance fun elements =>
    .of_get (fun _ _ => rfl) fun m => ?_
  split <;> infer_instance

instance : Indifferent floor r r' print := by
  unfold print
  infer_instance

instance (instruction : Exec Unit) [Indifferent floor r r' instruction] :
    Indifferent floor r r' (proceed instruction) := by
  unfold proceed
  infer_instance

/-- **No instruction but a return** looks at what the results of calls are for. -/
theorem execute_indifferent {op : Opcode} (h : op ≠ .ret) :
    Indifferent floor r r' (execute op) := by
  cases op
  case ret => exact absurd rfl h
  all_goals (unfold execute; infer_instance)

/-- An instruction that goes on with the run gives no result. -/
theorem eq_none_of_proceed {x : Exec Unit} {m m' : Machine} {result : Option Value}
    (h : proceed x m = .ok result m') : result = none := by
  simp only [proceed, Bind.bind, EStateM.bind] at h
  split at h
  · injection h with hresult
    exact hresult.symm
  · simp at h

/-- Only a return ends a run. -/
theorem execute_eq_none {op : Opcode} (h : op ≠ .ret) {m m' : Machine} {result : Option Value}
    (hrun : execute op m = .ok result m') : result = none := by
  cases op
  case ret => exact absurd rfl h
  case uninitialized =>
    change EStateM.Result.error _ m = .ok result m' at hrun
    cases hrun
  all_goals exact eq_none_of_proceed hrun

/-! ## Returns -/

/-- A result is used without a look at what the other results are for. -/
theorem resume_indifferent {purpose : Resume} (h : purpose ≠ .finish) (value : Value) :
    Indifferent floor r r' (resume value purpose) := by
  cases purpose
  case finish => exact absurd rfl h
  all_goals (unfold resume; infer_instance)

/-- Only the result of the run is given back. -/
theorem resume_eq_none {purpose : Resume} (h : purpose ≠ .finish) {value : Value}
    {m m' : Machine} {result : Option Value} (hrun : resume value purpose m = .ok result m') :
    result = none := by
  cases purpose with
  | finish => exact absurd rfl h
  | caller => exact eq_none_of_proceed (x := push value) hrun
  | property => exact eq_none_of_proceed (x := replaceTop value) hrun
  | invocation arguments => exact eq_none_of_proceed (x := callInstead value arguments) hrun
  | superProperty => exact eq_none_of_proceed (x := push value) hrun
  | description pending =>
    exact eq_none_of_proceed (x := do
      describe pending.purpose (pending.done ++ value.display (← heap)) pending.rest) hrun

end

end Exec

/-- The machine without the call in progress, its slots and its result. -/
def Machine.unwound (m : Machine) (slots : Nat) : Machine :=
  let m := { m with stack := m.stack.dropTop, frames := m.frames.dropTop }
  { m.closeCells slots with stack := m.stack.truncate slots }

namespace Exec

variable {floor : Nat} {r r' : Resume} {m n : Machine}

/-- A call is left with the value on top, and its slots are dropped. -/
theorem unwind_eq_ok {f : Frame} {rest : List Frame} {value : Value} (hcalls : m.calls = f :: rest)
    (htop : m.stack.top? = some value) : unwind m = .ok (value, f.resume) (m.unwound f.slots) := by
  have hpop : pop m = .ok value { m with stack := m.stack.dropTop } := by
    unfold pop
    rw [htop]
  have hframe := popFrame_eq (m := { m with stack := m.stack.dropTop }) hcalls
  show EStateM.bind pop _ m = _
  rw [EStateM.bind, hpop]
  show EStateM.bind popFrame _ _ = _
  rw [EStateM.bind, hframe]
  rfl

/-- No call is left without a value on the stack. -/
theorem unwind_eq_error (htop : m.stack.top? = none) :
    unwind m = .error StackError.underflow.fault m := by
  have hpop : pop m = .error StackError.underflow.fault m := by
    unfold pop
    rw [htop]
  show EStateM.bind pop _ m = _
  rw [EStateM.bind, hpop]

/-- Leaving a call above the one that differs. -/
theorem unwind_above {top : Frame} {above : List Frame} {f : Frame} {below : List Frame}
    (hm : m.calls = top :: above ++ { f with resume := r } :: below)
    (hn : n.calls = top :: above ++ { f with resume := r' } :: below)
    (hfloor : below.length = floor)
    (hfinish : ∀ g ∈ above, g.resume ≠ .finish) (hrest : ∃ frames, n = { m with frames }) :
    Swapped floor r r' (m.unwound top.slots) (n.unwound top.slots) := by
  obtain ⟨frames, rfl⟩ := hrest
  refine ⟨⟨frames.dropTop, rfl⟩, above, f, below, ?_, ?_, hfloor, hfinish⟩
  · show m.frames.dropTop.down = _
    rw [Stack.down_dropTop, show m.frames.down = _ from hm]
    rfl
  · show frames.dropTop.down = _
    rw [Stack.down_dropTop, show frames.down = _ from hn]
    rfl

/-- Leaving the call that differs. -/
theorem unwound_eq {f : Frame} {below : List Frame} {slots : Nat}
    (hm : m.calls = { f with resume := r } :: below)
    (hn : n.calls = { f with resume := r' } :: below)
    (hrest : ∃ frames, n = { m with frames }) : n.unwound slots = m.unwound slots := by
  obtain ⟨frames, rfl⟩ := hrest
  have hframes : frames.dropTop = m.frames.dropTop := by
    refine Stack.ext_down ?_
    rw [Stack.down_dropTop, Stack.down_dropTop, show m.frames.down = _ from hm,
      show frames.down = _ from hn]
    rfl
  simp only [Machine.unwound, hframes]

/-- How a machine goes on whose calls are for something else, once a part of a run has come out. -/
def Follows (floor : Nat) (r r' : Resume) (next : EStateM.Result Fault Machine (Option Value)) :
    EStateM.Result Fault Machine (Option Value) → Prop
  | .ok none m => ∃ n, next = .ok none n ∧ Swapped floor r r' m n
  | .ok (some value) m => next = resume value r' m
  | .error e m => ∃ n, next = .error e n ∧ Swapped floor r r' m n

/-- A part of a run that gives no result is followed alike on both machines. -/
theorem Follows.of_agrees {x y : EStateM.Result Fault Machine (Option Value)}
    (h : Agrees floor r r' x y) (hx : ∀ result m, x = .ok result m → result = none) :
    Follows floor r r' y x := by
  cases x with
  | ok result m =>
    obtain rfl := hx result m rfl
    cases y with
    | ok result' n =>
      obtain ⟨rfl, hmn⟩ := h
      exact ⟨n, rfl, hmn⟩
    | error e n => exact h.elim
  | error e m =>
    cases y with
    | ok result' n => exact h.elim
    | error e' n =>
      obtain ⟨rfl, hmn⟩ := h
      exact ⟨n, rfl, hmn⟩

/-- Leaving the call that differs leads to the use of its result. -/
theorem unwind_floor {f : Frame} {below : List Frame}
    (hm : m.calls = { f with resume := r } :: below)
    (hn : n.calls = { f with resume := r' } :: below)
    (hfloor : below.length = floor) (hrest : ∃ frames, n = { m with frames }) :
    Follows floor r r' (leave n) ((do return some (← unwind).1 : Exec (Option Value)) m) := by
  have hstack : n.stack = m.stack := by
    obtain ⟨frames, rfl⟩ := hrest
    rfl
  rw [leave_eq]
  simp only [Bind.bind, EStateM.bind]
  cases hvalue : m.stack.top? with
  | none =>
    rw [unwind_eq_error hvalue, unwind_eq_error (hstack ▸ hvalue)]
    exact ⟨n, rfl, hrest, [], f, below, hm, hn, hfloor, by simp⟩
  | some value =>
    rw [unwind_eq_ok hm hvalue, unwind_eq_ok hn (hstack ▸ hvalue)]
    show resume value r' (n.unwound f.slots) = resume value r' (m.unwound f.slots)
    rw [unwound_eq hm hn hrest]

section

variable [Fact (r.isNested = true)] [Fact (r'.isNested = true)]

/-- Leaving a call above the one that differs leads to the same use of its result. -/
theorem leave_above {top : Frame} {above : List Frame} {f : Frame} {below : List Frame}
    (hm : m.calls = top :: above ++ { f with resume := r } :: below)
    (hn : n.calls = top :: above ++ { f with resume := r' } :: below)
    (hfloor : below.length = floor)
    (hfinish : ∀ g ∈ top :: above, g.resume ≠ .finish) (hrest : ∃ frames, n = { m with frames }) :
    Follows floor r r' (leave n) (leave m) := by
  have htop := hfinish top List.mem_cons_self
  have hstack : n.stack = m.stack := by
    obtain ⟨frames, rfl⟩ := hrest
    rfl
  rw [leave_eq]
  simp only [Bind.bind, EStateM.bind]
  cases hvalue : m.stack.top? with
  | none =>
    rw [unwind_eq_error hvalue, unwind_eq_error (hstack ▸ hvalue)]
    exact ⟨n, rfl, hrest, top :: above, f, below, hm, hn, hfloor, hfinish⟩
  | some value =>
    rw [unwind_eq_ok hm hvalue, unwind_eq_ok hn (hstack ▸ hvalue)]
    have hswapped := unwind_above hm hn hfloor
      (fun g hg => hfinish g (List.mem_cons_of_mem _ hg)) hrest
    refine .of_agrees ((resume_indifferent htop value).agrees hswapped) fun result m' hresult => ?_
    exact resume_eq_none htop hresult

/-- **One step of a call inside an instruction** is one step of the machine, whatever the result of
the call is for; when the call is left, the machine uses the result. -/
theorem stepAbove_swapped (h : Swapped floor r r' m n) :
    Follows floor r r' (step n) (stepAbove floor m) := by
  have hread := Indifferent.agrees (x := readOpcode) h
  simp only [stepAbove, step, Bind.bind, EStateM.bind]
  revert hread
  cases readOpcode m with
  | error e m₁ =>
    cases readOpcode n with
    | error e' n₁ =>
      rintro ⟨rfl, h₁⟩
      exact ⟨n₁, rfl, h₁⟩
    | ok op n₁ => exact False.elim
  | ok op m₁ =>
    cases readOpcode n with
    | error e' n₁ => exact False.elim
    | ok op' n₁ =>
      rintro ⟨rfl, h₁⟩
      show Follows floor r r' (execute op n₁) ((if op = .ret ∧ m₁.frames.size = floor + 1 then
        do return some (← unwind).1 else execute op : Exec (Option Value)) m₁)
      obtain ⟨hrest, above, f, below, hm, hn, hfloor, hfinish⟩ := id h₁
      have hsize : m₁.frames.size = above.length + (floor + 1) := by
        rw [← Stack.length_down, show m₁.frames.down = _ from hm]
        simp [hfloor]
      -- Only a return looks at what a call is for, and only the return of the lowest call differs.
      by_cases hret : op = .ret
      · subst hret
        cases above with
        | nil =>
          rw [if_pos ⟨rfl, by simpa using hsize⟩]
          exact unwind_floor hm hn hfloor hrest
        | cons top above =>
          rw [if_neg (fun hfloor => by simp at hsize; omega)]
          exact leave_above hm hn hfloor hfinish hrest
      · rw [if_neg (fun hop => hret hop.1)]
        exact .of_agrees ((execute_indifferent hret).agrees h₁) fun _ _ => execute_eq_none hret

end

/-- What has to be done before a closure is called inside an instruction; the slot of its callee. -/
def prepare (closure : ClosureId) (receiver : Value) : Exec Nat := do
  push receiver
  let function := (← heap).functionOf closure
  if function.arity ≠ 0 then raise (.arity function.arity 0)
  calleeSlot 0

instance (closure : ClosureId) (receiver : Value) : Frameless (prepare closure receiver) := by
  unfold prepare
  infer_instance

/-- A closure is called inside an instruction in two steps: its slots are prepared, and then the
call is made. -/
theorem enter_eq (closure : ClosureId) (receiver : Value) (r : Resume) :
    (do push receiver; enter closure 0 r : Exec Unit) =
      prepare closure receiver >>= fun slots => pushFrame ⟨closure, 0, slots, r⟩ := by
  simp only [prepare, enter, bind_assoc]
  congr 1
  funext _
  congr 1
  funext heap
  split <;> simp

/-- **From a call on, two machines differ in what its result is for**; there is room for it on both
or on neither. -/
theorem pushFrame_swapped (closure : ClosureId) (slots : Nat) (r r' : Resume) (m : Machine) :
    (∃ m' n, pushFrame ⟨closure, 0, slots, r⟩ m = .ok () m' ∧
        pushFrame ⟨closure, 0, slots, r'⟩ m = .ok () n ∧ Swapped m.frames.size r r' m' n) ∨
      ∃ e, pushFrame ⟨closure, 0, slots, r⟩ m = .error e m ∧
        pushFrame ⟨closure, 0, slots, r'⟩ m = .error e m := by
  unfold pushFrame
  by_cases h : m.frames.size < frameLimit
  · simp only [dif_pos h]
    refine .inl ⟨_, _, rfl, rfl, ⟨_, rfl⟩, [], ⟨closure, 0, slots, r⟩, m.calls, ?_, ?_, ?_, by simp⟩
    · exact Stack.down_pushOf h
    · exact Stack.down_pushOf h
    · exact Stack.length_down m.frames
  · simp only [dif_neg h]
    exact .inr ⟨_, rfl, rfl⟩

/-- A call inside an instruction is started the same way, whatever its result is for. -/
theorem evaluate_swapped (closure : ClosureId) (receiver : Value) (r r' : Resume) (m : Machine) :
    (∃ m' n, evaluate closure receiver r m = .ok () m' ∧ evaluate closure receiver r' m = .ok () n ∧
        Swapped m.frames.size r r' m' n) ∨
      ∃ e m', evaluate closure receiver r m = .error e m' ∧
        evaluate closure receiver r' m = .error e m' := by
  have hevaluate : ∀ r, evaluate closure receiver r m =
      if nestingLimit ≤ m.nesting then .error (.runtime .stackOverflow) m
      else (prepare closure receiver >>= fun slots => pushFrame ⟨closure, 0, slots, r⟩) m := by
    intro r
    rw [← enter_eq]
    show (if nestingLimit ≤ m.nesting then _ else _ : Exec Unit) m = _
    split <;> rfl
  rw [hevaluate, hevaluate]
  by_cases hnesting : nestingLimit ≤ m.nesting
  · simp only [if_pos hnesting]
    exact .inr ⟨_, _, rfl, rfl⟩
  · simp only [if_neg hnesting, Bind.bind, EStateM.bind]
    cases hprepare : prepare closure receiver m with
    | error e m₁ => exact .inr ⟨e, m₁, rfl, rfl⟩
    | ok slots m₁ =>
      have hframes : m₁.frames = m.frames := Frameless.frames_of_ok hprepare
      rw [← hframes]
      rcases pushFrame_swapped closure slots r r' m₁ with hok | ⟨e, herror⟩
      · exact .inl hok
      · exact .inr ⟨e, m₁, herror⟩

end Exec

/-! ## Waiting for values -/

namespace Machine

/-- How far a run has come after one step. -/
def Progress.ofStep : EStateM.Result Fault Machine (Option Value) → Progress
  | .ok none m => .running m
  | .ok (some value) m => .finished value m
  | .error fault m => .failed fault m

theorem Progress.advance_zero (p : Progress) : p.advance 0 = p := by
  cases p <;> rfl

theorem advance_succ (steps : Nat) (m : Machine) :
    m.advance (steps + 1) = (Progress.ofStep (Exec.step m)).advance steps := by
  rw [advance]
  split <;> next h => rw [h]; rfl

/-- A run waits for a value that takes steps to find, and then uses it: it goes on as long as the
value is not there, fails as the search for the value fails, and comes to the use of the value once
that is there. -/
def Progress.Awaits (start : Progress) (value : Nat → Progress)
    (use : Value → Exec (Option Value)) : Prop :=
  ∀ steps, match value steps with
    | .running m => ∃ n, start.advance steps = .running n ∧ m.Alike n
    | .finished v m => ∃ k ≤ steps, start.advance k = .ofStep (use v m)
    | .failed fault m => ∃ n, start.advance steps = .failed fault n ∧ m.Alike n

/-- **A run whose call has another purpose waits for the value of that call**. -/
theorem advance_of_swapped {floor : Nat} {r r' : Resume} [Fact (r.isNested = true)]
    [Fact (r'.isNested = true)] {m n : Machine} (h : Swapped floor r r' m n) :
    (Progress.running n).Awaits (advanceAbove floor · m) (Exec.resume · r') := by
  intro steps
  induction steps generalizing m n with
  | zero => exact ⟨n, rfl, h.alike⟩
  | succ steps ih =>
    have hstep := Exec.stepAbove_swapped h
    simp only [advanceAbove, Progress.advance, advance_succ]
    revert hstep
    rcases Exec.stepAbove floor m with ⟨_ | v, m'⟩ | ⟨e, m'⟩
    · rintro ⟨n', hn', h'⟩
      have hrest := ih h'
      rw [hn']
      revert hrest
      dsimp only
      cases advanceAbove floor steps m' with
      | running _ => exact id
      | failed _ _ => exact id
      | finished v m'' =>
        rintro ⟨k, hk, hend⟩
        exact ⟨k + 1, by omega, by rw [advance_succ, hn']; exact hend⟩
    · intro hn'
      exact ⟨1, by omega, by rw [advance_succ, hn', Progress.advance_zero]⟩
    · rintro ⟨n', hn', h'⟩
      exact ⟨n', by rw [hn']; rfl, h'.alike⟩

/-- **An instruction that evaluates a closure** waits for its value, and then does with it what the
value is for. -/
theorem evaluate_awaits (m : Machine) (closure : ClosureId) (receiver : Value) {r : Resume}
    (hr : r.isNested = true) :
    (Progress.ofStep (Exec.proceed (Exec.evaluate closure receiver r) m)).Awaits
      (m.valueOf · closure receiver) (Exec.resume · r) := by
  have : Fact (r.isNested = true) := ⟨hr⟩
  have : Fact (Resume.property.isNested = true) := ⟨rfl⟩
  unfold valueOf Exec.proceed
  simp only [Bind.bind, EStateM.bind]
  rcases Exec.evaluate_swapped closure receiver .property r m with
    ⟨m', n, hm, hn, h⟩ | ⟨e, m', hm, hn⟩
  · rw [hm, hn]
    exact advance_of_swapped h
  · rw [hm, hn]
    exact fun steps => ⟨m', rfl, rfl, rfl, rfl, rfl, rfl, rfl, rfl⟩

end Machine

end ScriptVM
