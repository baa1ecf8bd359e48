/-
# Where instructions leave the calls in progress

Each instruction first reads its operands, which moves the innermost call over them, and then leaves
the place of every call alone; it starts at most one call (`Exec.Advances`).  A return leaves the
innermost call, and the use of its result moves no call either.  So a call stands behind its
instruction until it goes on with the next one, whatever runs in between.

This holds of any code whatsoever, for instructions that succeed and for those that fail because of
the program.
-/
import ScriptVM.Proofs.Machine.Changes
import ScriptVM.Proofs.Machine.Steps

namespace ScriptVM

namespace Exec

variable {α β : Type} {x : Exec α} {f : α → Exec β} {k : Nat}

/-! ## Parts that leave the places of calls alone -/

/-- The number of calls that a part of a run may start: none if it fails. -/
def allowance (k : Nat) (x : Exec α) (m : Machine) : Nat :=
  match x m with
  | .ok _ _ => k
  | .error _ _ => 0

@[simp] theorem allowance_zero (x : Exec α) (m : Machine) : x.allowance 0 m = 0 := by
  unfold allowance
  split <;> rfl

/-- A part of a run may start no more calls than it is allowed to. -/
theorem allowance_le (k : Nat) (x : Exec α) (m : Machine) : x.allowance k m ≤ k := by
  unfold allowance
  split
  · exact Nat.le_refl k
  · exact Nat.zero_le k

theorem allowance_of_ok {m m' : Machine} {a : α} (h : x m = .ok a m') : x.allowance k m = k := by
  rw [allowance, h]

theorem allowance_of_error {m m' : Machine} {e : Fault} (h : x m = .error e m') :
    x.allowance k m = 0 := by
  rw [allowance, h]

theorem allowance_bind_of_ok {m m' : Machine} {a : α} (h : x m = .ok a m') :
    (x >>= f).allowance k m = (f a).allowance k m' := by
  rw [allowance, bind_of_ok h, allowance]

/-- Nothing changes when a part gives its result in another form. -/
theorem after_bind_pure (x : Exec α) (g : α → β) (m : Machine) :
    (x >>= fun a => pure (g a)).after m = x.after m ∧
      (x >>= fun a => pure (g a)).allowance k m = x.allowance k m := by
  cases hrun : x m with
  | ok a m' =>
    rw [after_bind_of_ok hrun, allowance_bind_of_ok hrun, after_of_ok hrun, allowance_of_ok hrun]
    exact ⟨rfl, rfl⟩
  | error e m' =>
    have hbind : (x >>= fun a => pure (g a)) m = .error e m' := by
      show EStateM.bind x _ m = _
      rw [EStateM.bind, hrun]
    rw [after_of_error hbind, after_of_error hrun, allowance_of_error hbind,
      allowance_of_error hrun]
    exact ⟨rfl, rfl⟩

/-- A part of a run that starts at most `k` calls if it succeeds, and leaves the others alone. -/
class Starts (k : Nat) (x : Exec α) : Prop where
  /-- There are at most so many calls more behind it. -/
  calls : ∀ m, ∃ above, above.length ≤ x.allowance k m ∧ (x.after m).calls = above ++ m.calls

theorem Starts.of_eq (h : ∀ m, (x.after m).calls = m.calls) : Starts k x :=
  ⟨fun m => ⟨[], Nat.zero_le _, h m⟩⟩

/-- A part that starts no call leaves all of them alone. -/
theorem Starts.eq [h : Starts 0 x] (m : Machine) : (x.after m).calls = m.calls := by
  obtain ⟨above, hlength, hcalls⟩ := h.calls m
  obtain rfl := List.length_eq_zero_iff.1 (Nat.le_zero.1 (allowance_zero x m ▸ hlength))
  exact hcalls

instance [Frameless x] : Starts k x := by
  refine .of_eq fun m => ?_
  unfold after
  split
  · next h => exact congrArg Stack.down (Frameless.frames_of_ok h)
  · next h => exact congrArg Stack.down (Frameless.frames_of_error h)

instance [Starts 0 x] [∀ a, Starts k (f a)] : Starts k (x >>= f) where
  calls m := by
    have hx := Starts.eq (x := x) m
    cases hrun : x m with
    | ok a m' =>
      rw [after_of_ok hrun] at hx
      rw [after_bind_of_ok hrun, allowance_bind_of_ok hrun, ← hx]
      exact Starts.calls m'
    | error e m' =>
      rw [after_of_error hrun] at hx
      rw [after_bind_of_error hrun]
      exact ⟨[], Nat.zero_le _, hx⟩

theorem Starts.bind (hx : Starts 0 x) (hf : ∀ a, Starts k (f a)) : Starts k (x >>= f) :=
  inferInstance

/-- The result of a part that starts a call may be given in another form. -/
theorem Starts.bind_pure [Starts k x] (g : α → β) : Starts k (x >>= fun a => pure (g a)) where
  calls m := by
    obtain ⟨hafter, hallowance⟩ := after_bind_pure (k := k) x g m
    rw [hafter, hallowance]
    exact Starts.calls m

instance (c : Prop) [Decidable c] (x y : Exec α) [Starts k x] [Starts k y] :
    Starts k (if c then x else y) := by
  split <;> infer_instance

instance : Starts k (get : Exec Machine) :=
  .of_eq fun _ => rfl

instance : Starts k frame := by
  refine .of_eq fun m => ?_
  unfold after frame
  cases m.frames.top? <;> rfl

instance : Starts k chunk := by
  unfold chunk
  infer_instance

/-! ### Calls -/

instance (f : Frame) : Starts 1 (pushFrame f) where
  calls m := by
    by_cases h : m.frames.size < frameLimit
    · have hrun : pushFrame f m = .ok () { m with frames := m.frames.pushOf f h } := dif_pos h
      rw [after_of_ok hrun, allowance_of_ok hrun]
      exact ⟨[f], Nat.le_refl _, Stack.down_pushOf h⟩
    · rw [after_of_error (by rw [pushFrame, dif_neg h])]
      exact ⟨[], Nat.zero_le _, rfl⟩

instance (closure : ClosureId) (arguments : UInt8) (purpose : Resume) :
    Starts 1 (enter closure arguments purpose) := by
  unfold enter
  refine .bind inferInstance fun heap => ?_
  infer_instance

instance (closure : ClosureId) (receiver : Value) (purpose : Resume) :
    Starts 1 (evaluate closure receiver purpose) := by
  unfold evaluate
  refine .bind inferInstance fun m => ?_
  infer_instance

instance (purpose : Purpose) (done : String) (pieces : List Piece) :
    Starts 1 (describe purpose done pieces) := by
  induction pieces generalizing done with
  | nil =>
    unfold describe
    infer_instance
  | cons piece rest ih =>
    cases piece with
    | text s =>
      unfold describe
      infer_instance
    | leaf value =>
      unfold describe
      refine .bind inferInstance fun heap => ?_
      split <;> infer_instance

instance (function : Native) (arguments : UInt8) : Starts 1 (callNative function arguments) := by
  have hperform : ∀ (now : Float) (values : List Value), Starts 1
      (match function.effect now values with
      | .error e => raise e
      | .ok (.result value) => push value
      | .ok (.describe value purpose) => describe purpose "" value.pieces) := by
    intro now values
    split <;> infer_instance
  unfold callNative
  infer_instance

instance (id : ClassId) (arguments : UInt8) : Starts 1 (callClass id arguments) := by
  unfold callClass
  refine .bind inferInstance fun instanceId => .bind inferInstance fun _ =>
    .bind inferInstance fun heap => ?_
  split <;> infer_instance

instance (callee : Value) (arguments : UInt8) : Starts 1 (callValue callee arguments) := by
  unfold callValue
  split
  all_goals try infer_instance
  refine .bind inferInstance fun heap => ?_
  split <;> infer_instance

instance (id : ClassId) (name : String) (arguments : UInt8) :
    Starts 1 (invokeFrom id name arguments) := by
  unfold invokeFrom
  refine .bind inferInstance fun heap => ?_
  split <;> infer_instance

instance : Starts 1 print := by
  unfold print
  infer_instance

instance (value : Value) (arguments : UInt8) : Starts 1 (callInstead value arguments) := by
  unfold callInstead
  infer_instance

instance (name : String) (arguments : UInt8) : Starts 1 (invoke name arguments) := by
  unfold invoke
  refine .bind inferInstance fun value => ?_
  split
  · refine .bind inferInstance fun heap => ?_
    split
    · infer_instance
    · split <;> infer_instance
  · infer_instance

instance (id : InstanceId) (name : String) : Starts 1 (readProperty id name) := by
  unfold readProperty
  refine .bind inferInstance fun heap => ?_
  split
  · infer_instance
  · split
    · infer_instance
    · split <;> infer_instance

instance (superclass : ClassId) (receiver : InstanceId) (name : String) :
    Starts 1 (readSuperProperty superclass receiver name) := by
  unfold readSuperProperty
  refine .bind inferInstance fun heap => ?_
  dsimp only
  split
  · infer_instance
  · split <;> infer_instance

/-- **The use of a result** starts at most one call. -/
instance (value : Value) (purpose : Resume) : Starts 1 (resume value purpose) := by
  cases purpose with
  | finish =>
    unfold resume
    infer_instance
  | description pending =>
    unfold resume
    exact .bind inferInstance fun heap => .bind_pure _
  | _ =>
    unfold resume
    exact .bind_pure _

/-! ## Reading operands -/

/-- A part of a run reads a number of bytes of the code, and does nothing else.  It fails only where
the code is broken. -/
def Reads (count : Nat) (x : Exec α) : Prop :=
  ∀ m f rest, m.calls = f :: rest →
    match x m with
    | .ok _ m' => m' = m.moveTo (f.ip + count)
    | .error e _ => ∃ defect, e = .internal defect

/-- What two parts of a run read, they read together. -/
theorem Reads.bind {a b : Nat} (hx : Reads a x) (hf : ∀ v, Reads b (f v)) :
    Reads (a + b) (x >>= f) := by
  intro m g rest hcalls
  have hx := hx m g rest hcalls
  simp only [Bind.bind, EStateM.bind]
  cases hrun : x m with
  | ok v m' =>
    rw [hrun] at hx
    obtain rfl : m' = m.moveTo (g.ip + a) := hx
    have hf := hf v _ _ _ (Machine.calls_moveTo hcalls (g.ip + a))
    simpa [Nat.add_assoc] using hf
  | error e m' =>
    rw [hrun] at hx
    exact hx

theorem reads_pure (v : α) : Reads 0 (pure v : Exec α) := by
  intro m f rest hcalls
  exact (Machine.moveTo_self hcalls).symm

/-- One byte is read, and nothing else is done. -/
theorem reads_readByte : Reads 1 readByte := by
  intro m f rest hcalls
  have hheap : heap m = .ok m.heap m := rfl
  cases hcode : (m.heap.functionOf f.closure).chunk.code[f.ip]? with
  | some byte => rw [readByte_eq_of_ip hcalls hcode]
  | none =>
    rw [readByte, bind_of_ok (frame_eq hcalls), bind_of_ok hheap, hcode]
    exact ⟨_, rfl⟩

/-- Nothing is read behind a part that reads if what follows only looks at its result. -/
theorem Reads.then {n : Nat} (hx : Reads n x) (hf : ∀ v, Reads 0 (f v)) : Reads n (x >>= f) :=
  hx.bind (b := 0) hf

theorem reads_defect (e : Defect) : Reads 0 (defect e : Exec α) :=
  fun _ _ _ _ => ⟨e, rfl⟩

/-- Looking at the code or the heap reads no byte. -/
theorem reads_chunk : Reads 0 chunk := by
  intro m f rest hcalls
  have hheap : heap m = .ok m.heap m := rfl
  rw [chunk, bind_of_ok (frame_eq hcalls), bind_of_ok hheap]
  exact (Machine.moveTo_self hcalls).symm

theorem reads_frame : Reads 0 frame := by
  intro m f rest hcalls
  rw [frame_eq hcalls]
  exact (Machine.moveTo_self hcalls).symm

theorem reads_heap : Reads 0 heap :=
  fun _ _ _ hcalls => (Machine.moveTo_self hcalls).symm

/-- A constant is read with one byte. -/
theorem reads_readConstant : Reads 1 readConstant := by
  refine reads_readByte.then fun index => reads_chunk.then fun chunk => ?_
  cases chunk.constant? index with
  | some value => exact reads_pure value
  | none => exact reads_defect _

/-- A name is read with one byte. -/
theorem reads_readName : Reads 1 readName := by
  refine reads_readConstant.then fun value => ?_
  cases value with
  | string name => exact reads_pure name
  | _ => exact reads_defect _

/-- A captured variable is looked up without reading bytes. -/
theorem reads_capturedCell (captures : Array CellId) (index : Nat) :
    Reads 0 (capturedCell captures index) := by
  unfold capturedCell
  split
  · exact reads_pure _
  · exact reads_defect _

theorem reads_readCell : Reads 1 readCell :=
  reads_readByte.then fun _ => reads_frame.then fun _ => reads_heap.then fun _ =>
    reads_capturedCell _ _

/-! ## Instructions -/

/-- A part of a run finds the code broken. -/
def Breaks (x : Exec α) (m : Machine) : Prop :=
  ∃ defect m', x m = .error (.internal defect) m'

theorem not_breaks_of_ok {m m' : Machine} {a : α} (h : x m = .ok a m') : ¬x.Breaks m := by
  rintro ⟨defect, m'', herror⟩
  rw [h] at herror
  cases herror

/-- A runtime error does not come of broken code. -/
theorem not_breaks_of_runtime {m m' : Machine} {e : RuntimeError}
    (h : x m = .error (.runtime e) m') : ¬x.Breaks m := by
  rintro ⟨defect, m'', herror⟩
  rw [h] at herror
  cases herror

/-- What breaks at its first part breaks as a whole. -/
theorem Breaks.bind {m : Machine} (h : x.Breaks m) (f : α → Exec β) : (x >>= f).Breaks m := by
  obtain ⟨defect, m', hx⟩ := h
  refine ⟨defect, m', ?_⟩
  show EStateM.bind x f m = _
  rw [EStateM.bind, hx]

/-- A part of a run moves the innermost call over a number of bytes and starts at most `k` other
ones, unless it finds the code broken. -/
def Advances (count k : Nat) (x : Exec α) : Prop :=
  ∀ m f rest, m.calls = f :: rest → ¬x.Breaks m →
    ∃ above, above.length ≤ x.allowance k m ∧
      (x.after m).calls = above ++ { f with ip := f.ip + count } :: rest

theorem Starts.advances (h : Starts k x) : Advances 0 k x := by
  intro m f rest hcalls _
  obtain ⟨above, hlength, heq⟩ := h.calls m
  exact ⟨above, hlength, hcalls ▸ heq⟩

/-- A part that reads its operands first. -/
theorem Reads.andThen {a b : Nat} (hx : Reads a x) (hf : ∀ v, Advances b k (f v)) :
    Advances (a + b) k (x >>= f) := by
  intro m g rest hcalls hbreaks
  have hx := hx m g rest hcalls
  cases hrun : x m with
  | ok v m' =>
    rw [hrun] at hx
    obtain rfl : m' = m.moveTo (g.ip + a) := hx
    rw [Breaks, bind_of_ok hrun] at hbreaks
    obtain ⟨above, hlength, hcalls'⟩ := hf v _ _ _ (Machine.calls_moveTo hcalls (g.ip + a)) hbreaks
    rw [after_bind_of_ok hrun, allowance_bind_of_ok hrun]
    exact ⟨above, hlength, by rw [hcalls', Nat.add_assoc]⟩
  | error e m' =>
    rw [hrun] at hx
    obtain ⟨defect, rfl⟩ := hx
    exact absurd (Breaks.bind ⟨defect, m', hrun⟩ f) hbreaks

theorem Reads.advances {n : Nat} (hx : Reads n x) (hf : ∀ v, Starts k (f v)) :
    Advances n k (x >>= f) :=
  hx.andThen fun v => (hf v).advances

/-- Behind a part that starts no call, another one may start none either. -/
theorem Advances.then {n : Nat} (hx : Advances n 0 x) (hf : ∀ a, Starts 0 (f a)) :
    Advances n 0 (x >>= f) := by
  intro m g rest hcalls hbreaks
  obtain ⟨above, hlength, hcalls'⟩ := hx m g rest hcalls fun h => hbreaks (h.bind f)
  obtain rfl := List.length_eq_zero_iff.1 (Nat.le_zero.1 (allowance_zero x m ▸ hlength))
  refine ⟨[], Nat.zero_le _, ?_⟩
  cases hrun : x m with
  | ok v m' =>
    rw [after_of_ok hrun] at hcalls'
    rw [after_bind_of_ok hrun, Starts.eq (x := f v), hcalls']
  | error e m' =>
    rw [after_of_error hrun] at hcalls'
    rw [after_bind_of_error hrun, hcalls']

/-- What goes on with the run advances as far as before. -/
theorem Advances.proceed {n : Nat} {x : Exec Unit} (hx : Advances n k x) :
    Advances n k (proceed x) := by
  intro m g rest hcalls hbreaks
  obtain ⟨hafter, hallowance⟩ := after_bind_pure (k := k) x (fun _ => (none : Option Value)) m
  obtain ⟨above, hlength, hcalls'⟩ := hx m g rest hcalls fun h => hbreaks (h.bind _)
  exact ⟨above, hallowance ▸ hlength, (congrArg Machine.calls hafter).trans hcalls'⟩

instance (name : String) (value : Value) : Starts k
    (modify fun m => { m with globals := m.globals.insert name value } : Exec Unit) :=
  .of_eq fun _ => rfl

theorem advances_getGlobal : Advances 1 k getGlobal := by
  refine reads_readName.advances fun name => .bind inferInstance fun m => ?_
  split <;> infer_instance

theorem advances_getProperty : Advances 1 1 getProperty := by
  refine reads_readName.advances fun name => .bind inferInstance fun value => ?_
  split <;> infer_instance

theorem advances_setProperty : Advances 1 k setProperty := by
  refine reads_readName.advances fun name => .bind inferInstance fun value =>
    .bind inferInstance fun receiver => ?_
  split <;> infer_instance

theorem advances_getSuper : Advances 1 1 getSuper := by
  refine reads_readName.advances fun name => .bind inferInstance fun superclass =>
    .bind inferInstance fun receiver => ?_
  split <;> infer_instance

theorem advances_arrayLiteral : Advances 1 1 arrayLiteral := by
  refine reads_readByte.advances fun count => .bind inferInstance fun elements =>
    .bind inferInstance fun m => ?_
  split <;> infer_instance

theorem advances_invoke : Advances 2 1 invokeProperty :=
  reads_readName.andThen fun _ => reads_readByte.advances inferInstance

theorem advances_invokeSuper : Advances 2 1 invokeSuper :=
  reads_readName.andThen fun _ => reads_readByte.advances inferInstance

end Exec

/-- The number of calls that an instruction may start. -/
def Opcode.starts : Opcode → Nat
  | .call | .invoke | .invokeSuper | .arrayLiteral | .getProperty | .getSuper | .print => 1
  | _ => 0

theorem Opcode.starts_le (op : Opcode) : op.starts ≤ 1 := by
  cases op <;> decide

namespace Exec

/-- **An instruction without jumps and captures** moves the call over its operands. -/
theorem execute_advances {op : Opcode}
    (h : op ∉ [Opcode.ret, .jump, .jumpIfFalse, .loop, .closure]) :
    Advances op.operandLength op.starts (execute op) := by
  cases op
  case ret | jump | jumpIfFalse | loop | closure => exact absurd (by decide) h
  case constant => exact (reads_readConstant.advances inferInstance).proceed
  case defineGlobal => exact (reads_readName.advances inferInstance).proceed
  case getGlobal => exact advances_getGlobal.proceed
  case setGlobal => exact (reads_readName.advances inferInstance).proceed
  case getLocal => exact (reads_readByte.advances inferInstance).proceed
  case setLocal => exact (reads_readByte.advances inferInstance).proceed
  case getUpvalue => exact (reads_readCell.advances inferInstance).proceed
  case setUpvalue => exact (reads_readCell.advances inferInstance).proceed
  case call => exact (reads_readByte.advances (k := 1) inferInstance).proceed
  case newClass => exact (reads_readName.advances inferInstance).proceed
  case getProperty => exact advances_getProperty.proceed
  case setProperty => exact advances_setProperty.proceed
  case method => exact (reads_readName.advances inferInstance).proceed
  case computedProperty => exact (reads_readName.advances inferInstance).proceed
  case invoke => exact advances_invoke.proceed
  case getSuper => exact advances_getSuper.proceed
  case invokeSuper => exact advances_invokeSuper.proceed
  case arrayLiteral => exact advances_arrayLiteral.proceed
  case uninitialized => exact Starts.advances (x := defect _) inferInstance
  case print => exact (Starts.advances (k := 1) (x := print) inferInstance).proceed
  all_goals exact (Starts.advances inferInstance).proceed

/-! ### Closures -/

/-- A part that starts no call and can fail only where the code is broken, in front of others. -/
theorem Advances.after {n : Nat} [Starts 0 x] (hx : ∀ m, x.Breaks m ∨ ∃ a m', x m = .ok a m')
    (hf : ∀ a, Advances n k (f a)) : Advances n k (x >>= f) := by
  intro m g rest hcalls hbreaks
  rcases hx m with hbroken | ⟨a, m', hok⟩
  · exact absurd (hbroken.bind f) hbreaks
  · have hsame := Starts.eq (x := x) m
    rw [after_of_ok hok, hcalls] at hsame
    rw [Breaks, bind_of_ok hok] at hbreaks
    rw [after_bind_of_ok hok, allowance_bind_of_ok hok]
    exact hf a m' g rest hsame hbreaks

/-- A variable is captured unless the code is broken. -/
theorem breaks_or_ok_captureSlot (slot : Nat) (m : Machine) :
    (captureSlot slot).Breaks m ∨ ∃ id m', captureSlot slot m = .ok id m' := by
  unfold captureSlot
  split
  · exact .inr ⟨_, _, rfl⟩
  · exact .inr ⟨_, _, rfl⟩

/-- A captured variable is found unless the code is broken. -/
theorem breaks_or_ok_capturedCell (captures : Array CellId) (index : Nat) (m : Machine) :
    (capturedCell captures index).Breaks m ∨ ∃ id m',
      capturedCell captures index m = .ok id m' := by
  unfold capturedCell
  cases captures[index]? with
  | some id => exact .inr ⟨id, m, rfl⟩
  | none => exact .inl ⟨_, m, rfl⟩

/-- A pair of bytes is read for each captured variable. -/
theorem advances_readCaptures (base : Nat) (around found : Array CellId) (count : Nat) :
    Advances (2 * count) 0 (readCaptures base around found count) := by
  induction count generalizing found with
  | zero => exact Starts.advances (x := pure found) inferInstance
  | succ count ih =>
    rw [show 2 * (count + 1) = 1 + (1 + 2 * count) by omega]
    refine reads_readByte.andThen fun origin => reads_readByte.andThen fun index => ?_
    dsimp only
    split
    · exact Advances.after (breaks_or_ok_captureSlot _) fun id => ih _
    · exact Advances.after (breaks_or_ok_capturedCell _ _) fun id => ih _

variable {m m' : Machine} {g : Frame} {rest : List Frame} {op : Opcode}

/-- A byte is read at the offset that the innermost call has come to, or the code is broken. -/
theorem readByte_cases (hcalls : m.calls = g :: rest) (ip : Nat) :
    readByte.Breaks (m.moveTo ip) ∨ ∃ byte, (chunkOf m g).code[ip]? = some byte ∧
      readByte (m.moveTo ip) = .ok byte (m.moveTo (ip + 1)) := by
  cases hbyte : (chunkOf m g).code[ip]? with
  | some byte => exact .inr ⟨byte, rfl, readByte_eq hcalls hbyte⟩
  | none =>
    have hheap : heap (m.moveTo ip) = .ok m.heap (m.moveTo ip) := rfl
    refine .inl ⟨.invalidInstructionPointer ip (chunkOf m g).size, m.moveTo ip, ?_⟩
    rw [readByte, bind_of_ok (frame_eq (Machine.calls_moveTo hcalls ip)), bind_of_ok hheap]
    dsimp only
    rw [hbyte]
    rfl

/-- A constant that is read is the one that the next byte names, unless the code is broken. -/
theorem readConstant_cases (hcalls : m.calls = g :: rest) (ip : Nat) :
    readConstant.Breaks (m.moveTo ip) ∨ ∃ index value, (chunkOf m g).code[ip]? = some index ∧
      (chunkOf m g).constant? index = some value ∧
      readConstant (m.moveTo ip) = .ok value (m.moveTo (ip + 1)) := by
  rcases readByte_cases hcalls ip with hbroken | ⟨index, hbyte, hread⟩
  · exact .inl (hbroken.bind _)
  cases hconstant : (chunkOf m g).constant? index with
  | some value =>
    exact .inr ⟨index, value, hbyte, hconstant, readConstant_eq hcalls hbyte hconstant⟩
  | none =>
    have hchunk : chunk (m.moveTo (ip + 1)) = .ok (chunkOf m g) (m.moveTo (ip + 1)) := by
      show EStateM.bind frame _ _ = _
      rw [EStateM.bind, frame_eq (Machine.calls_moveTo hcalls (ip + 1))]
      rfl
    refine .inl ⟨.invalidConstant index, m.moveTo (ip + 1), ?_⟩
    rw [readConstant, bind_of_ok hread, bind_of_ok hchunk, hconstant]
    rfl

/-- A distance that is read is the one in the code, unless the code is broken. -/
theorem readShort_cases (hcalls : m.calls = g :: rest) (ip : Nat) :
    readShort.Breaks (m.moveTo ip) ∨ ∃ distance, (chunkOf m g).short? ip = some distance ∧
      readShort (m.moveTo ip) = .ok distance (m.moveTo (ip + 2)) := by
  rcases readByte_cases hcalls ip with hbroken | ⟨high, hhigh, hread⟩
  · exact .inl (hbroken.bind _)
  rcases readByte_cases hcalls (ip + 1) with ⟨defect, m', hbroken⟩ | ⟨low, hlow, -⟩
  · refine .inl ⟨defect, m', ?_⟩
    rw [readShort, bind_of_ok hread]
    show EStateM.bind readByte _ _ = _
    rw [EStateM.bind, hbroken]
  · refine .inr ⟨_, ?_, readShort_eq hcalls hhigh hlow⟩
    simp [Chunk.short?, hhigh, hlow, distanceOf]

/-- The value on top is looked at, unless the code is broken. -/
theorem peek_cases (m : Machine) :
    (peek 0).Breaks m ∨ ∃ value, m.values.head? = some value ∧ peek 0 m = .ok value m := by
  cases hvalues : m.values with
  | cons value rest => exact .inr ⟨value, rfl, peek_eq (by rw [hvalues]; rfl)⟩
  | nil =>
    have hsize : m.stack.size = 0 := by rw [m.size_stack, hvalues]; rfl
    refine .inl ⟨.stackUnderflow, m, ?_⟩
    show (ofStack (m.stack.peek 0) : Exec Value) m = _
    rw [Stack.peek, hsize]
    rfl

/-- Making a closure moves the call over its function and a pair for each variable that the function
captures. -/
theorem makeClosure_advances (hcalls : m.calls = g :: rest) (ip : Nat)
    (hbreaks : ¬makeClosure.Breaks (m.moveTo ip)) :
    ∃ index function, (chunkOf m g).code[ip]? = some index ∧
      (chunkOf m g).functionAt? m.heap index = some function ∧
      (makeClosure.after (m.moveTo ip)).calls
        = { g with ip := ip + 1 + 2 * function.captureCount } :: rest := by
  rcases readConstant_cases hcalls ip with hbroken | ⟨index, value, hbyte, hconstant, hread⟩
  · exact absurd (hbroken.bind _) hbreaks
  cases hfunction : value.function? with
  | none =>
    refine absurd ⟨.invalidTypes .function, m.moveTo (ip + 1), ?_⟩ hbreaks
    rw [makeClosure, bind_of_ok hread, hfunction]
    rfl
  | some id =>
    have hcalls' := Machine.calls_moveTo hcalls (ip + 1)
    have hheap : heap (m.moveTo (ip + 1)) = .ok m.heap (m.moveTo (ip + 1)) := rfl
    -- Behind the constant, what is left reads two bytes for each capture.
    have hrun : makeClosure (m.moveTo ip) = (do
        let captures ← readCaptures g.slots (m.heap.closure g.closure).captures #[]
          (m.heap.function id).captureCount
        push (.closureRef (← allocate (·.newClosure ⟨id, captures⟩))) : Exec Unit)
          (m.moveTo (ip + 1)) := by
      rw [makeClosure, bind_of_ok hread, hfunction]
      dsimp only
      rw [bind_of_ok (frame_eq hcalls'), bind_of_ok hheap, bind_of_ok hheap]
    have hadvances := (advances_readCaptures g.slots (m.heap.closure g.closure).captures #[]
      (m.heap.function id).captureCount).then (f := fun captures => do
        push (.closureRef (← allocate (·.newClosure ⟨id, captures⟩)))) inferInstance
    obtain ⟨above, hlength, hafter⟩ := hadvances _ _ _ hcalls' fun ⟨defect, m', h⟩ =>
      hbreaks ⟨defect, m', hrun.trans h⟩
    obtain rfl := List.length_eq_zero_iff.1 (Nat.le_zero.1 (allowance_zero .. ▸ hlength))
    refine ⟨index, m.heap.function id, hbyte, ?_, ?_⟩
    · simp [Chunk.functionAt?, hconstant, hfunction]
    · rw [after, hrun]
      exact hafter

/-! ### Steps -/

/-- The opcode of an instruction is read first. -/
theorem step_of_opcodeAt? (hcalls : m.calls = g :: rest)
    (hop : (chunkOf m g).opcodeAt? g.ip = some op) : step m = execute op (m.moveTo (g.ip + 1)) := by
  obtain ⟨byte, hbyte, hbyteOp⟩ := Option.bind_eq_some_iff.1 hop
  refine bind_of_ok (readOpcode_eq hcalls ?_)
  rw [Opcode.toByte_of_ofByte? hbyteOp]
  exact hbyte

/-- **A step** that is neither a return nor a jump moves the innermost call over its instruction. -/
theorem step_advances (hcalls : m.calls = g :: rest)
    (hop : (chunkOf m g).opcodeAt? g.ip = some op)
    (hplain : op ∉ [Opcode.ret, .jump, .jumpIfFalse, .loop]) (hbreaks : ¬step.Breaks m) :
    ∃ length above, (chunkOf m g).instructionLength? m.heap g.ip = some length ∧
      above.length ≤ step.allowance op.starts m ∧
      (step.after m).calls = above ++ { g with ip := g.ip + length } :: rest := by
  have hstep := step_of_opcodeAt? hcalls hop
  have hcalls' := Machine.calls_moveTo hcalls (g.ip + 1)
  rw [Breaks, hstep] at hbreaks
  rw [after, allowance, hstep]
  by_cases hclosure : op = .closure
  · subst hclosure
    obtain ⟨index, function, hbyte, hfunction, hafter⟩ := makeClosure_advances hcalls (g.ip + 1)
      fun h => hbreaks (h.bind _)
    have hlength : (chunkOf m g).instructionLength? m.heap g.ip
        = some (1 + 1 + 2 * function.captureCount) := by
      simp [Chunk.instructionLength?, hop, hbyte, hfunction, Opcode.operandLength, Opcode.operands]
    refine ⟨_, [], hlength, Nat.zero_le _, ?_⟩
    rw [show g.ip + (1 + 1 + 2 * function.captureCount) = g.ip + 1 + 1 + 2 * function.captureCount
      by omega]
    exact (congrArg Machine.calls (after_proceed makeClosure _)).trans hafter
  · have hother : op ∉ [Opcode.ret, .jump, .jumpIfFalse, .loop, .closure] := by
      simp_all
    obtain ⟨above, hlength, hafter⟩ := execute_advances hother _ _ _ hcalls' hbreaks
    refine ⟨1 + op.operandLength, above, ?_, hlength, ?_⟩
    · simp [Chunk.instructionLength?, hop, hclosure]
    · rw [show g.ip + (1 + op.operandLength) = g.ip + 1 + op.operandLength by omega]
      exact hafter

/-! ### Jumps -/

section

variable {distance : Nat} (hcalls : m.calls = g :: rest)
  (hread : readShort (m.moveTo (g.ip + 1)) = .ok distance (m.moveTo (g.ip + 3)))
include hcalls hread

theorem jump_eq : jump (m.moveTo (g.ip + 1)) = .ok () (m.moveTo (g.ip + 3 + distance)) := by
  rw [jump, bind_of_ok hread, bind_of_ok (frame_eq (Machine.calls_moveTo hcalls _))]
  show EStateM.Result.ok () ((m.moveTo _).moveTo _) = _
  rw [Machine.moveTo_moveTo]

/-- A conditional jump goes to its target or on behind itself, as the value on top says. -/
theorem jumpIfFalse_eq {value : Value}
    (hpeek : peek 0 (m.moveTo (g.ip + 3)) = .ok value (m.moveTo (g.ip + 3))) :
    jumpIfFalse (m.moveTo (g.ip + 1)) =
      .ok () (m.moveTo (if value.isFalsey then g.ip + 3 + distance else g.ip + 3)) := by
  rw [jumpIfFalse, bind_of_ok hread, bind_of_ok hpeek]
  split
  · rw [bind_of_ok (frame_eq (Machine.calls_moveTo hcalls _))]
    show EStateM.Result.ok () ((m.moveTo _).moveTo _) = _
    rw [Machine.moveTo_moveTo]
  · rfl

/-- A jump back goes to its target. -/
theorem loop_eq (hle : distance ≤ g.ip + 3) :
    loop (m.moveTo (g.ip + 1)) = .ok () (m.moveTo (g.ip + 3 - distance)) := by
  rw [loop, bind_of_ok hread, bind_of_ok (frame_eq (Machine.calls_moveTo hcalls _))]
  dsimp only
  rw [if_pos hle]
  show EStateM.Result.ok () ((m.moveTo _).moveTo _) = _
  rw [Machine.moveTo_moveTo]

end

/-- A step at a jump goes to the target that is written there. -/
theorem step_jump (hcalls : m.calls = g :: rest) (hop : (chunkOf m g).opcodeAt? g.ip = some .jump)
    (hbreaks : ¬step.Breaks m) : ∃ distance, (chunkOf m g).short? (g.ip + 1) = some distance ∧
      step m = .ok none (m.moveTo (g.ip + 3 + distance)) := by
  have hstep := step_of_opcodeAt? hcalls hop
  rw [Breaks, hstep] at hbreaks
  rcases readShort_cases hcalls (g.ip + 1) with hbroken | ⟨distance, hshort, hread⟩
  · exact absurd ((hbroken.bind _).bind _) hbreaks
  refine ⟨distance, hshort, ?_⟩
  rw [hstep]
  exact bind_of_ok (jump_eq hcalls hread)

/-- A step at a conditional jump goes to the target that is written there, or on behind the
instruction. -/
theorem step_jumpIfFalse (hcalls : m.calls = g :: rest)
    (hop : (chunkOf m g).opcodeAt? g.ip = some .jumpIfFalse) (hbreaks : ¬step.Breaks m) :
    ∃ distance value, (chunkOf m g).short? (g.ip + 1) = some distance ∧
      m.values.head? = some value ∧ step m =
        .ok none (m.moveTo (if value.isFalsey then g.ip + 3 + distance else g.ip + 3)) := by
  have hstep := step_of_opcodeAt? hcalls hop
  rw [Breaks, hstep] at hbreaks
  rcases readShort_cases hcalls (g.ip + 1) with hbroken | ⟨distance, hshort, hread⟩
  · exact absurd ((hbroken.bind _).bind _) hbreaks
  rcases peek_cases (m.moveTo (g.ip + 1 + 2)) with ⟨defect, m', hbroken⟩ | ⟨value, hvalue, hpeek⟩
  · refine absurd (Breaks.bind ⟨defect, m', ?_⟩ _) hbreaks
    rw [jumpIfFalse, bind_of_ok hread]
    show EStateM.bind (peek 0) _ _ = _
    rw [EStateM.bind, hbroken]
  refine ⟨distance, value, hshort, hvalue, ?_⟩
  rw [hstep]
  exact bind_of_ok (jumpIfFalse_eq hcalls hread hpeek)

/-- A step at a jump back goes to the target that is written there. -/
theorem step_loop (hcalls : m.calls = g :: rest) (hop : (chunkOf m g).opcodeAt? g.ip = some .loop)
    (hbreaks : ¬step.Breaks m) : ∃ distance, (chunkOf m g).short? (g.ip + 1) = some distance ∧
      distance ≤ g.ip + 3 ∧ step m = .ok none (m.moveTo (g.ip + 3 - distance)) := by
  have hstep := step_of_opcodeAt? hcalls hop
  rw [Breaks, hstep] at hbreaks
  rcases readShort_cases hcalls (g.ip + 1) with hbroken | ⟨distance, hshort, hread⟩
  · exact absurd ((hbroken.bind _).bind _) hbreaks
  have hframe := frame_eq (Machine.calls_moveTo hcalls (g.ip + 1 + 2))
  by_cases hle : distance ≤ g.ip + 3
  · refine ⟨distance, hshort, hle, ?_⟩
    rw [hstep]
    exact bind_of_ok (loop_eq hcalls hread hle)
  · refine absurd (Breaks.bind ?_ _) hbreaks
    have hchunk : chunk (m.moveTo (g.ip + 3)) = .ok (chunkOf m g) (m.moveTo (g.ip + 3)) := by
      rw [chunk, bind_of_ok hframe]
      rfl
    refine ⟨.invalidInstructionPointer (g.ip + 3) (chunkOf m g).size, m.moveTo (g.ip + 3), ?_⟩
    rw [loop, bind_of_ok hread, bind_of_ok hframe]
    dsimp only
    rw [if_neg hle, bind_of_ok hchunk]
    rfl

/-- A return leaves the innermost call and uses its result. -/
theorem step_ret (hcalls : m.calls = g :: rest) (hop : (chunkOf m g).opcodeAt? g.ip = some .ret)
    (hbreaks : ¬step.Breaks m) : ∃ value, step m = resume value g.resume (m.unwound g.slots) := by
  have hstep : step m = leave (m.moveTo (g.ip + 1)) := step_of_opcodeAt? hcalls hop
  rw [leave_eq] at hstep
  cases htop : m.stack.top? with
  | none =>
    refine absurd ⟨.stackUnderflow, m.moveTo (g.ip + 1), hstep.trans ?_⟩ hbreaks
    show EStateM.bind unwind _ _ = _
    rw [EStateM.bind, unwind_eq_error (m := m.moveTo (g.ip + 1)) htop]
    rfl
  | some value =>
    have hunwind := unwind_eq_ok (Machine.calls_moveTo hcalls (g.ip + 1)) htop
    dsimp only at hunwind
    rw [unwound_moveTo hcalls] at hunwind
    exact ⟨value, hstep.trans (bind_of_ok hunwind)⟩

/-- A return leaves the other calls alone, and the use of its result may start another one. -/
theorem step_leaves (hcalls : m.calls = g :: rest)
    (hop : (chunkOf m g).opcodeAt? g.ip = some .ret) (hbreaks : ¬step.Breaks m) :
    ∃ above, above.length ≤ step.allowance 1 m ∧ (step.after m).calls = above ++ rest := by
  obtain ⟨value, hstep⟩ := step_ret hcalls hop hbreaks
  have hresume := Starts.calls (k := 1) (x := resume value g.resume) (m.unwound g.slots)
  rw [Machine.calls_unwound hcalls] at hresume
  rw [after, allowance, hstep]
  exact hresume

end Exec

/-! ## Instructions that are not complete -/

namespace Machine

variable {m m₁ m' : Machine} {above below : List Frame}

/-- A small change under which there are calls above some others leaves those others alone. -/
theorem Change.exists_above {op : Opcode} (h : m.Change op m') (habove : above ≠ [])
    (hcalls : m.calls = above ++ below) : ∃ above', above' ≠ [] ∧ m'.calls = above' ++ below := by
  obtain ⟨f, inner, rfl⟩ := List.exists_cons_of_ne_nil habove
  cases h with
  | goTo ip => exact ⟨{ f with ip } :: inner, by simp, calls_moveTo hcalls ip⟩
  | call g _ hsize =>
    exact ⟨g :: f :: inner, by simp, (Stack.down_pushOf hsize).trans (congrArg (g :: ·) hcalls)⟩
  | _ => exact ⟨f :: inner, by simp, hcalls⟩

/-- Small changes leave the calls below as they are. -/
theorem Becomes.exists_above {op : Opcode} (h : m.Becomes op m') (habove : above ≠ [])
    (hcalls : m.calls = above ++ below) : ∃ above', above' ≠ [] ∧ m'.calls = above' ++ below := by
  induction h with
  | refl => exact ⟨above, habove, hcalls⟩
  | tail _ hlast ih =>
    obtain ⟨above', habove', hcalls'⟩ := ih
    exact hlast.exists_above habove' hcalls'

/-- **What runs above some calls** leaves them alone, up to the return that leaves the last call
above them. -/
theorem exists_above_of_step (hcalls : m.calls = above ++ below) (habove : above ≠ [])
    (hstep : Exec.step m = .ok none m') : ∃ above', m'.calls = above' ++ below := by
  rcases Exec.step_cases m with ⟨op, -, hbecomes, -⟩ | ⟨f, rest, value, hf, -, -, hresume⟩
  · rw [Exec.after_of_ok hstep] at hbecomes
    obtain ⟨above', -, h⟩ := hbecomes.exists_above habove hcalls
    exact ⟨above', h⟩
  · obtain ⟨g, inner, rfl⟩ := List.exists_cons_of_ne_nil habove
    obtain ⟨rfl, rfl⟩ := List.cons.inj (hf.symm.trans hcalls)
    obtain ⟨started, -, h⟩ := Exec.Starts.calls (k := 1) (x := Exec.resume value f.resume)
      (m.unwound f.slots)
    rw [Exec.after_of_ok (hresume.symm.trans hstep), calls_unwound hf] at h
    exact ⟨started ++ inner, h.trans (List.append_assoc ..).symm⟩

end Machine

end ScriptVM
