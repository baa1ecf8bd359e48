/-
# Where output goes

Nothing that a machine does depends on where it writes.  Machines that are the same but for their
sinks (`Machine.Redirected`) do the same instruction with the same outcome and are alike again
(`Exec.Blind`), and so a run has the same outcome on both, whatever happens to the output in its
pauses.

The instructions write in the middle of a description, and a report is written when a fault ends a
run: a sink that refuses any of these writes is one more sink.

Main statements: `Exec.step_blind` and `Runner.paced_redirected`.
-/
import ScriptVM.Proofs.Session.Soundness

namespace ScriptVM

/-! ## Redirected machines -/

/-- Two machines that are the same but for where they write. -/
def Machine.Redirected (m m' : Machine) : Prop :=
  m' = { m with sink := m'.sink }

namespace Machine.Redirected

variable {m m' : Machine}

theorem exists_sink (h : m.Redirected m') : ∃ sink, m' = { m with sink } := ⟨_, h⟩

theorem heap_eq (h : m.Redirected m') : m.heap = m'.heap := by
  obtain ⟨sink, rfl⟩ := h.exists_sink
  rfl

theorem globals_eq (h : m.Redirected m') : m.globals = m'.globals := by
  obtain ⟨sink, rfl⟩ := h.exists_sink
  rfl

end Machine.Redirected

namespace Exec

open Machine (Redirected)

variable {α β : Type}

/-- Two outcomes of a part of a run that are the same but for where the machines write. -/
def SameOutcome : EStateM.Result Fault Machine α → EStateM.Result Fault Machine α → Prop
  | .ok a m, .ok a' m' => a = a' ∧ m.Redirected m'
  | .error e m, .error e' m' => e = e' ∧ m.Redirected m'
  | _, _ => False

/-- A part of a run that does not depend on where the machine writes. -/
class Blind (x : Exec α) : Prop where
  /-- Redirected machines have the same outcome. -/
  sameOutcome : ∀ (m : Machine) (sink : Sink), SameOutcome (x m) (x { m with sink })

variable {x : Exec α} {f : α → Exec β}

/-- A part that changes a machine without a look at its sink. -/
theorem Blind.of_eq
    (h : ∀ (m : Machine) (sink : Sink), x { m with sink } = match x m with
      | .ok a m' => .ok a { m' with sink }
      | .error e m' => .error e { m' with sink }) : Blind x where
  sameOutcome m sink := by
    rw [h m sink]
    cases x m with
    | ok a m' => exact ⟨rfl, rfl⟩
    | error e m' => exact ⟨rfl, rfl⟩

instance (a : α) : Blind (pure a : Exec α) := .of_eq fun _ _ => rfl

instance (e : Fault) : Blind (throw e : Exec α) := .of_eq fun _ _ => rfl

instance (e : RuntimeError) : Blind (raise e : Exec α) := .of_eq fun _ _ => rfl

instance (e : Defect) : Blind (defect e : Exec α) := .of_eq fun _ _ => rfl

instance : Blind heap := .of_eq fun _ _ => rfl

instance [hx : Blind x] [hf : ∀ a, Blind (f a)] : Blind (x >>= f) where
  sameOutcome m sink := by
    have hsame := hx.sameOutcome m sink
    show SameOutcome (EStateM.bind x f m) (EStateM.bind x f { m with sink })
    unfold EStateM.bind
    cases h : x m <;> cases h' : x { m with sink } <;> rw [h, h'] at hsame
    · obtain ⟨rfl, hm⟩ := hsame
      obtain ⟨sink', rfl⟩ := hm.exists_sink
      exact (hf _).sameOutcome _ sink'
    · cases hsame
    · cases hsame
    · exact hsame

theorem Blind.bind (hx : Blind x) (hf : ∀ a, Blind (f a)) : Blind (x >>= f) :=
  inferInstance

/-- What is read from a machine may be anything but its sink. -/
theorem Blind.bind_get {f : Machine → Exec β} (h : ∀ (m : Machine) (sink : Sink),
    f { m with sink } = f m) (hf : ∀ m, Blind (f m)) : Blind (get >>= f) where
  sameOutcome m sink := by
    show SameOutcome (f m m) (f { m with sink } { m with sink })
    rw [h m sink]
    exact (hf m).sameOutcome m sink

instance (c : Prop) [Decidable c] (x y : Exec α) [Blind x] [Blind y] :
    Blind (if c then x else y) := by
  split <;> infer_instance

instance (outcome : Except StackError α) : Blind (ofStack outcome) := by
  cases outcome <;> (unfold ofStack; infer_instance)

instance (outcome : Except ValueError α) : Blind (ofOperator outcome) := by
  cases outcome <;> (unfold ofOperator; infer_instance)

instance (make : Heap → α × Heap) : Blind (allocate make) := .of_eq fun _ _ => rfl

instance (f : Heap → Heap) : Blind (modifyHeap f) := .of_eq fun _ _ => rfl

instance (ip : Nat) : Blind (goTo ip) := .of_eq fun _ _ => rfl

/-- **Writing** leaves machines alike. -/
instance (text : String) : Blind (write text) where
  sameOutcome _ _ := ⟨rfl, rfl⟩

/-! ### The stacks -/

instance (value : Value) : Blind (push value) where
  sameOutcome m sink := by
    by_cases h : m.stack.size < stackLimit
    · rw [push, push, dif_pos h, dif_pos h]
      exact ⟨rfl, rfl⟩
    · rw [push, push, dif_neg h, dif_neg h]
      exact ⟨rfl, rfl⟩

instance : Blind pop where
  sameOutcome m sink := by
    unfold pop
    dsimp only
    cases m.stack.top? <;> exact ⟨rfl, rfl⟩

instance (n : Nat) : Blind (popMany n) where
  sameOutcome m sink := by
    unfold popMany
    dsimp only
    split <;> exact ⟨rfl, rfl⟩

instance (slot : Nat) (value : Value) : Blind (setSlot slot value) where
  sameOutcome m sink := by
    unfold setSlot
    dsimp only
    split <;> exact ⟨rfl, rfl⟩

instance (distance : Nat) : Blind (peek distance) :=
  .bind_get (fun _ _ => rfl) fun _ => inferInstance

instance (slot : Nat) : Blind (getSlot slot) :=
  .bind_get (fun _ _ => rfl) fun _ => inferInstance

instance (arguments : UInt8) : Blind (calleeSlot arguments) :=
  .bind_get (fun _ _ => rfl) fun _ => inferInstance

instance (arguments : UInt8) (value : Value) : Blind (setCallee arguments value) := by
  unfold setCallee
  infer_instance

instance : Blind frame where
  sameOutcome m sink := by
    unfold frame
    dsimp only
    cases m.frames.top? <;> exact ⟨rfl, rfl⟩

instance (f : Frame) : Blind (pushFrame f) where
  sameOutcome m sink := by
    by_cases h : m.frames.size < frameLimit
    · rw [pushFrame, pushFrame, dif_pos h, dif_pos h]
      exact ⟨rfl, rfl⟩
    · rw [pushFrame, pushFrame, dif_neg h, dif_neg h]
      exact ⟨rfl, rfl⟩

instance : Blind popFrame where
  sameOutcome m sink := by
    unfold popFrame
    dsimp only
    cases m.frames.top? <;> exact ⟨rfl, rfl⟩

/-! ### Captured variables -/

instance (bottom : Nat) : Blind (closeCells bottom) := .of_eq fun _ _ => rfl

instance (slot : Nat) : Blind (captureSlot slot) where
  sameOutcome m sink := by
    unfold captureSlot
    dsimp only
    cases m.openCells.find? fun id => (m.heap.cell id).slot? = some slot <;> exact ⟨rfl, rfl⟩

instance (captures : Array CellId) (index : Nat) : Blind (capturedCell captures index) := by
  unfold capturedCell
  split <;> infer_instance

instance (id : CellId) : Blind (getCell id) := by
  unfold getCell
  refine .bind inferInstance fun heap => ?_
  split <;> infer_instance

instance (id : CellId) (value : Value) : Blind (setCell id value) := by
  unfold setCell
  refine .bind inferInstance fun heap => ?_
  split <;> infer_instance

/-! ### Reading code -/

instance : Blind chunk := by
  unfold chunk
  infer_instance

instance : Blind readByte := by
  unfold readByte
  refine .bind inferInstance fun f => .bind inferInstance fun heap => ?_
  dsimp only
  split <;> infer_instance

instance : Blind readShort := by
  unfold readShort
  infer_instance

instance : Blind readConstant := by
  unfold readConstant
  refine .bind inferInstance fun index => .bind inferInstance fun chunk => ?_
  split <;> infer_instance

instance : Blind readName := by
  unfold readName
  refine .bind inferInstance fun value => ?_
  split <;> infer_instance

instance : Blind readOpcode := by
  unfold readOpcode
  refine .bind inferInstance fun byte => ?_
  split <;> infer_instance

instance : Blind readCell := by
  unfold readCell
  infer_instance

instance (base : Nat) (around found : Array CellId) (count : Nat) :
    Blind (readCaptures base around found count) := by
  induction count generalizing found with
  | zero =>
    unfold readCaptures
    infer_instance
  | succ count ih =>
    unfold readCaptures
    infer_instance

/-! ## Calls -/

instance (closure : ClosureId) (arguments : UInt8) (purpose : Resume) :
    Blind (enter closure arguments purpose) := by
  unfold enter
  infer_instance

instance (closure : ClosureId) (receiver : Value) (purpose : Resume) :
    Blind (evaluate closure receiver purpose) :=
  .bind_get (fun _ _ => rfl) fun _ => inferInstance

instance (purpose : Purpose) (description : String) : Blind (deliver purpose description) := by
  unfold deliver
  cases purpose.output? description <;> cases purpose.result? description <;> infer_instance

instance (purpose : Purpose) (done : String) (pieces : List Piece) :
    Blind (describe purpose done pieces) := by
  induction pieces generalizing done with
  | nil =>
    unfold describe
    infer_instance
  | cons piece rest ih =>
    cases piece with
    | text s =>
      unfold describe
      infer_instance
    | leaf value =>
      unfold describe
      refine .bind inferInstance fun heap => ?_
      split <;> infer_instance

instance (function : Native) (arguments : UInt8) : Blind (callNative function arguments) := by
  have hperform : ∀ (now : Float) (values : List Value), Blind
      (match function.effect now values with
      | .error e => raise e
      | .ok (.result value) => push value
      | .ok (.describe value purpose) => describe purpose "" value.pieces) := by
    intro now values
    split <;> infer_instance
  have hread : ∀ values : List Value, Blind (get >>= fun m : Machine =>
      match function.effect m.now values with
      | .error e => raise e
      | .ok (.result value) => push value
      | .ok (.describe value purpose) => describe purpose "" value.pieces) :=
    fun values => .bind_get (fun _ _ => rfl) fun m => hperform m.now values
  unfold callNative
  infer_instance

instance (elements : List Value) (arguments : UInt8) : Blind (callArray elements arguments) := by
  have hread : ∀ index : Value, Blind (match index with
      | .int i => push (elementAt elements i.toInt)
      | other => raise (.invalidIndex other.kind)) := by
    intro index
    split <;> infer_instance
  unfold callArray
  infer_instance

instance (id : ClassId) (arguments : UInt8) : Blind (callClass id arguments) := by
  unfold callClass
  refine .bind inferInstance fun instanceId => .bind inferInstance fun _ =>
    .bind inferInstance fun heap => ?_
  split <;> infer_instance

instance (callee : Value) (arguments : UInt8) : Blind (callValue callee arguments) := by
  unfold callValue
  split
  all_goals try infer_instance
  refine .bind inferInstance fun heap => ?_
  split <;> infer_instance

instance (id : ClassId) (name : String) (arguments : UInt8) :
    Blind (invokeFrom id name arguments) := by
  unfold invokeFrom
  refine .bind inferInstance fun heap => ?_
  split <;> infer_instance

instance (value : Value) (arguments : UInt8) : Blind (callInstead value arguments) := by
  unfold callInstead
  infer_instance

instance (name : String) (arguments : UInt8) : Blind (invoke name arguments) := by
  unfold invoke
  refine .bind inferInstance fun value => ?_
  split
  · refine .bind inferInstance fun heap => ?_
    split
    · infer_instance
    · split <;> infer_instance
  · infer_instance

instance (value : Value) : Blind (replaceTop value) := by
  unfold replaceTop
  infer_instance

instance (id : InstanceId) (name : String) : Blind (readProperty id name) := by
  unfold readProperty
  refine .bind inferInstance fun heap => ?_
  split
  · infer_instance
  · split
    · infer_instance
    · split <;> infer_instance

instance (superclass : ClassId) (receiver : InstanceId) (name : String) :
    Blind (readSuperProperty superclass receiver name) := by
  unfold readSuperProperty
  refine .bind inferInstance fun heap => ?_
  dsimp only
  split
  · infer_instance
  · split <;> infer_instance

instance (result : Value) (purpose : Resume) : Blind (resume result purpose) := by
  unfold resume
  split <;> infer_instance

instance : Blind leave := by
  have hdrop : ∀ slots : Nat, Blind (modify fun m : Machine =>
      { m with stack := m.stack.truncate slots } : Exec PUnit) :=
    fun slots => .of_eq fun _ _ => rfl
  unfold leave
  infer_instance

/-! ## Instructions -/

instance (f : Value → Except ValueError Value) : Blind (applyUnary f) := by
  unfold applyUnary
  infer_instance

instance (f : Value → Value → Except ValueError Value) : Blind (applyBinary f) := by
  unfold applyBinary
  infer_instance

theorem modify_globals_blind (name : String) (value : Value) :
    Blind (modify fun m : Machine => { m with globals := m.globals.insert name value } :
      Exec PUnit) :=
  .of_eq fun _ _ => rfl

instance : Blind defineGlobal := by
  have hinsert := modify_globals_blind
  unfold defineGlobal
  infer_instance

instance : Blind getGlobal := by
  unfold getGlobal
  refine .bind inferInstance fun name => .bind_get (fun _ _ => rfl) fun m => ?_
  split <;> infer_instance

instance : Blind setGlobal := by
  have hinsert := modify_globals_blind
  unfold setGlobal
  exact .bind inferInstance fun name => .bind_get (fun _ _ => rfl) fun m => inferInstance

instance : Blind getLocal := by
  unfold getLocal
  infer_instance

instance : Blind setLocal := by
  unfold setLocal
  infer_instance

instance : Blind getCaptured := by
  unfold getCaptured
  infer_instance

instance : Blind setCaptured := by
  unfold setCaptured
  infer_instance

instance : Blind dropCaptured :=
  .bind_get (fun _ _ => rfl) fun _ => inferInstance

instance : Blind jump := by
  unfold jump
  infer_instance

instance : Blind jumpIfFalse := by
  unfold jumpIfFalse
  infer_instance

instance : Blind loop := by
  unfold loop
  infer_instance

instance : Blind call := by
  unfold call
  infer_instance

instance : Blind makeClosure := by
  unfold makeClosure
  refine .bind inferInstance fun value => ?_
  split <;> infer_instance

instance : Blind makeClass := by
  unfold makeClass
  infer_instance

instance : Blind getProperty := by
  unfold getProperty
  refine .bind inferInstance fun name => .bind inferInstance fun value => ?_
  split <;> infer_instance

instance : Blind setProperty := by
  unfold setProperty
  refine .bind inferInstance fun name => .bind inferInstance fun value =>
    .bind inferInstance fun receiver => ?_
  split <;> infer_instance

instance : Blind classMember := by
  unfold classMember
  refine .bind inferInstance fun member => ?_
  split
  · refine .bind inferInstance fun owner => ?_
    split <;> infer_instance
  · infer_instance

instance (define : Heap → ClassId → String → ClosureId → Heap) : Blind (addMember define) := by
  unfold addMember
  infer_instance

instance : Blind inherit := by
  unfold inherit
  refine .bind inferInstance fun subclass => ?_
  split
  · refine .bind inferInstance fun superclass => ?_
    split <;> infer_instance
  · infer_instance

instance : Blind popClass := by
  unfold popClass
  refine .bind inferInstance fun value => ?_
  split <;> infer_instance

instance : Blind getSuper := by
  unfold getSuper
  refine .bind inferInstance fun name => .bind inferInstance fun superclass =>
    .bind inferInstance fun receiver => ?_
  split <;> infer_instance

instance : Blind invokeProperty := by
  unfold invokeProperty
  infer_instance

instance : Blind invokeSuper := by
  unfold invokeSuper
  infer_instance

instance : Blind arrayLiteral := by
  unfold arrayLiteral
  refine .bind inferInstance fun count => .bind inferInstance fun elements =>
    .bind_get (fun _ _ => rfl) fun m => ?_
  split <;> infer_instance

instance : Blind print := by
  unfold print
  infer_instance

instance (instruction : Exec Unit) [Blind instruction] : Blind (proceed instruction) := by
  unfold proceed
  infer_instance

instance (op : Opcode) : Blind (execute op) := by
  cases op <;> (unfold execute; infer_instance)

/-- **An instruction does not depend on where the machine writes.** -/
theorem step_blind : Blind step := by
  unfold step
  infer_instance

instance (function : FunctionId) : Blind (launch function) := by
  unfold launch
  infer_instance

end Exec

/-! ## Runs -/

namespace Machine

variable {m m' : Machine}

/-- What is reported does not depend on where it goes. -/
theorem Redirected.abandon (h : m.Redirected m') (fault : Fault) :
    (m.abandon fault).Redirected (m'.abandon fault) := by
  obtain ⟨sink, rfl⟩ := h.exists_sink
  rfl

/-- Two runs that have come equally far. -/
def Progress.Redirected : Progress → Progress → Prop
  | .running m, .running m' => m.Redirected m'
  | .finished value m, .finished value' m' => value = value' ∧ m.Redirected m'
  | .failed fault m, .failed fault' m' => fault = fault' ∧ m.Redirected m'
  | _, _ => False

/-- Two ends of runs that are the same but for where the machines write. -/
def SameEnd (r r' : Except Fault Value × Machine) : Prop :=
  r.1 = r'.1 ∧ r.2.Redirected r'.2

/-- Two machines that differ in where they write start the same function alike. -/
theorem launch_redirected (h : m.Redirected m') (function : FunctionId) :
    (m.launch function).Redirected (m'.launch function) := by
  obtain ⟨sink, rfl⟩ := h.exists_sink
  have hsame := Exec.Blind.sameOutcome (x := Exec.launch function) m sink
  unfold launch
  cases h : Exec.launch function m <;> cases h' : Exec.launch function { m with sink } <;>
    rw [h, h'] at hsame
  · exact hsame.2
  · cases hsame
  · cases hsame
  · exact hsame

/-- **Runs on alike machines** come equally far in as many steps. -/
theorem advance_redirected (h : m.Redirected m') (steps : Nat) :
    (m.advance steps).Redirected (m'.advance steps) := by
  induction steps generalizing m m' with
  | zero => exact h
  | succ steps ih =>
    obtain ⟨sink, rfl⟩ := h.exists_sink
    have hsame := Exec.step_blind.sameOutcome m sink
    rw [advance, advance]
    cases h : Exec.step m <;> cases h' : Exec.step { m with sink } <;> rw [h, h'] at hsame
    · obtain ⟨rfl, hm⟩ := hsame
      rename_i outcome _ _
      cases outcome with
      | none => exact ih hm
      | some value => exact ⟨rfl, hm⟩
    · cases hsame
    · cases hsame
    · exact hsame

namespace Progress

variable {p p' : Progress}

/-- Two runs that differ in where they write go equally far in as many steps. -/
theorem Redirected.advance (h : p.Redirected p') (steps : Nat) :
    (p.advance steps).Redirected (p'.advance steps) := by
  cases p <;> cases p' <;> first
    | exact advance_redirected h steps
    | exact h
    | cases h

/-- Two runs that differ in where they write end alike, or not at all. -/
theorem Redirected.outcome? (h : p.Redirected p') : Option.Rel SameEnd p.outcome? p'.outcome? := by
  cases p <;> cases p' <;> first
    | exact .none
    | exact .some ⟨congrArg Except.ok h.1, h.2⟩
    | exact .some ⟨h.1 ▸ rfl, h.1 ▸ h.2.abandon _⟩
    | cases h

end Progress

end Machine

/-- Two pauses after as many steps and at the same time; the output may be treated differently. -/
def Pause.Redirected (pause pause' : Pause) : Prop :=
  pause.steps = pause'.steps ∧ pause.now = pause'.now

/-- **Runs through alike pauses** end alike, or neither ends. -/
theorem Runner.paced_redirected {pauses pauses' : List Pause} {p p' : Machine.Progress}
    (hpauses : List.Forall₂ Pause.Redirected pauses pauses') (h : p.Redirected p') :
    Option.Rel Machine.SameEnd (paced pauses p) (paced pauses' p') := by
  induction hpauses generalizing p p' with
  | nil => exact h.outcome?
  | @cons pause pause' rest rest' hpause _ ih =>
    have hadvance := h.advance pause.steps
    rw [paced, paced, ← hpause.1]
    cases hp : p.advance pause.steps <;> cases hp' : p'.advance pause.steps <;>
      rw [hp, hp'] at hadvance
    case running.running m m' =>
      obtain ⟨sink, rfl⟩ := Machine.Redirected.exists_sink hadvance
      refine ih ?_
      show Machine.Redirected _ _
      rw [Pause.apply, Pause.apply, ← hpause.2]
      rfl
    all_goals first
      | exact hadvance.outcome?
      | cases hadvance

end ScriptVM
