/-
# Steps of running machines

Each instruction finds what its point promises and leaves the machine running, ready to wait, or
quiet.  The operands are read from the marked code; what the instruction then does is shown for any
slots below those that it takes.

Main statement: `step_running`.
-/
import ScriptVM.Proofs.Machine.Running

namespace ScriptVM

/-! ## Operators -/

namespace Value

variable {a b v : Value} {op : Operator}

/-- Whether a value is all by itself: a number, a text, a truth value or `nil`. -/
def isScalar : Value → Bool
  | .nil | .bool _ | .int _ | .number _ | .string _ => true
  | _ => false

theorem isPlain_of_isScalar (h : v.isScalar = true) : v.isPlain = true := by
  cases v <;> first | rfl | cases h

/-- Arithmetic that does not overflow gives a scalar. -/
theorem isScalar_of_checked {n : Int} (h : checked op n = .ok v) : v.isScalar = true := by
  unfold checked at h
  split at h
  · exact Except.ok.inj h ▸ rfl
  · simp at h

/-- Arithmetic gives scalars. -/
theorem isScalar_of_arithmetic {ints : Int → Int → Int} {floats : Float → Float → Float}
    (h : arithmetic op ints floats a b = .ok v) : v.isScalar = true := by
  unfold arithmetic at h
  split at h
  · exact isScalar_of_checked h
  · split at h
    · exact Except.ok.inj h ▸ rfl
    · simp at h

/-- A comparison gives a scalar. -/
theorem isScalar_of_compare {ints : Int → Int → Bool} {texts : String → String → Bool}
    {floats : Float → Float → Bool} (h : compare op ints texts floats a b = .ok v) :
    v.isScalar = true := by
  unfold compare at h
  split at h
  · exact Except.ok.inj h ▸ rfl
  · exact Except.ok.inj h ▸ rfl
  · split at h
    · exact Except.ok.inj h ▸ rfl
    · simp at h

/-- A sum is a scalar, and so are two texts put together. -/
theorem isScalar_of_add (h : add a b = .ok v) : v.isScalar = true := by
  unfold add at h
  split at h
  · exact Except.ok.inj h ▸ rfl
  · exact isScalar_of_arithmetic h

/-- A quotient is a scalar. -/
theorem isScalar_of_divide (h : divide a b = .ok v) : v.isScalar = true := by
  unfold divide at h
  split at h
  · split at h
    · simp at h
    · exact isScalar_of_checked h
  · exact isScalar_of_arithmetic h

/-- A number with its sign changed is a scalar. -/
theorem isScalar_of_negate (h : negate a = .ok v) : v.isScalar = true := by
  unfold negate at h
  split at h
  · exact isScalar_of_checked h
  · exact Except.ok.inj h ▸ rfl
  · simp at h

end Value

namespace Exec

variable {W : World} {S : Shape} {m : Machine} {f : Frame} {rest : List Frame} {ip : Nat}

/-- A unary operator leaves its result in place of its operand. -/
theorem applyUnary_ready {op : Value → Except ValueError Value}
    (hop : ∀ a v, op a = .ok v → v.isScalar = true) (h : At W (.operand :: S) m)
    (hw : GoesOn W [.operand] m.calls S) :
    Ensures W.toGround (applyUnary op) m fun _ m' => m'.Ready W.toGround := by
  refine (pop_at h rfl).bind fun a m' ⟨_, hat, hcalls⟩ => ?_
  refine (Ensures.ofOperator (P := fun v m'' => v.Ok W ∧ m'' = m') hat.survives fun v hv =>
    ⟨.plain (Value.isPlain_of_isScalar (hop a v hv)), rfl⟩).bind ?_
  rintro v m'' ⟨hv, rfl⟩
  exact push_ready hat (hcalls ▸ hw) hv

/-- A binary operator leaves its result in place of its operands. -/
theorem applyBinary_ready {op : Value → Value → Except ValueError Value}
    (hop : ∀ a b v, op a b = .ok v → v.isScalar = true) (h : At W (.operand :: .operand :: S) m)
    (hw : GoesOn W [.operand] m.calls S) :
    Ensures W.toGround (applyBinary op) m fun _ m' => m'.Ready W.toGround := by
  refine (pop_at h rfl).bind fun b m₁ ⟨_, h₁, hcalls₁⟩ => ?_
  refine (pop_at h₁ rfl).bind fun a m₂ ⟨_, h₂, hcalls₂⟩ => ?_
  refine (Ensures.ofOperator (P := fun v m' => v.Ok W ∧ m' = m₂) h₂.survives fun v hv =>
    ⟨.plain (Value.isPlain_of_isScalar (hop a b v hv)), rfl⟩).bind ?_
  rintro v m' ⟨hv, rfl⟩
  refine push_ready h₂ ?_ hv
  rw [hcalls₂, hcalls₁]
  exact hw

theorem print_ready (h : At W (.operand :: S) m) (hw : GoesOn W [] m.calls S) :
    Ensures W.toGround print m fun _ m' => m'.Ready W.toGround := by
  refine (pop_at h rfl).bind fun value m' ⟨_, hat, hcalls⟩ => ?_
  exact describe_ready value.pieces "" hat (hcalls ▸ hw)

/-! ## Reading code -/

/-- The chunk of a call. -/
abbrev chunkOf (m : Machine) (f : Frame) : Chunk :=
  (m.heap.functionOf f.closure).chunk

/-- A constant is read if the code and the pool have it. -/
theorem readConstant_eq {index : UInt8} {v : Value} (hcalls : m.calls = f :: rest)
    (hbyte : (chunkOf m f).code[ip]? = some index)
    (hconstant : (chunkOf m f).constants[index.toNat]? = some v) :
    readConstant (m.moveTo ip) = .ok v (m.moveTo (ip + 1)) := by
  have hchunk : chunk (m.moveTo (ip + 1)) = .ok (chunkOf m f) (m.moveTo (ip + 1)) := by
    show EStateM.bind frame _ _ = _
    rw [EStateM.bind, frame_eq (Machine.calls_moveTo hcalls (ip + 1))]
    rfl
  rw [readConstant, bind_of_ok (readByte_eq hcalls hbyte), bind_of_ok hchunk, Chunk.constant?,
    hconstant]
  rfl

/-- A name is read if the code and the pool have it. -/
theorem readName_eq {index : UInt8} {name : String} (hcalls : m.calls = f :: rest)
    (hbyte : (chunkOf m f).code[ip]? = some index)
    (hconstant : (chunkOf m f).constants[index.toNat]? = some (.string name)) :
    readName (m.moveTo ip) = .ok name (m.moveTo (ip + 1)) := by
  show EStateM.bind readConstant _ _ = _
  rw [EStateM.bind, readConstant_eq hcalls hbyte hconstant]
  rfl

/-- A distance is read if the code has both of its bytes. -/
theorem readShort_eq {high low : UInt8} (hcalls : m.calls = f :: rest)
    (hhigh : (chunkOf m f).code[ip]? = some high) (hlow : (chunkOf m f).code[ip + 1]? = some low) :
    readShort (m.moveTo ip) = .ok (distanceOf high low) (m.moveTo (ip + 2)) := by
  show EStateM.bind readByte _ _ = _
  rw [EStateM.bind, readByte_eq hcalls hhigh]
  show EStateM.bind readByte _ _ = _
  rw [EStateM.bind, readByte_eq hcalls hlow]
  rfl

/-- An opcode is read if the code has its byte. -/
theorem readOpcode_eq {op : Opcode} (hcalls : m.calls = f :: rest)
    (hbyte : (chunkOf m f).code[f.ip]? = some op.toByte) :
    readOpcode m = .ok op (m.moveTo (f.ip + 1)) := by
  rw [readOpcode, bind_of_ok (readByte_eq_of_ip hcalls hbyte), Opcode.ofByte?_toByte]
  rfl

/-- The cell that an instruction names is one for the use that its function expects. -/
theorem readCell_eq {index : UInt8} {bp : Blueprint} {kind : SlotKind} (hheap : m.heap.Ok W)
    (hcalls : m.calls = f :: rest) (hbp : W.closures[f.closure.index]? = some bp)
    (hbyte : (chunkOf m f).code[ip]? = some index)
    (hkind : bp.captures[index.toNat]? = some kind) :
    ∃ id, readCell (m.moveTo ip) = .ok id (m.moveTo (ip + 1)) ∧
      W.cells[id.index]? = some kind := by
  obtain ⟨id, hcell, hid⟩ :=
    capturedCell_eq (m := m.moveTo (ip + 1)) (hheap.closure hbp).captures hkind
  refine ⟨id, ?_, hid⟩
  show EStateM.bind readByte _ _ = _
  rw [EStateM.bind, readByte_eq hcalls hbyte]
  show EStateM.bind frame _ _ = _
  rw [EStateM.bind, frame_eq (Machine.calls_moveTo hcalls (ip + 1))]
  exact hcell

/-! ## Instructions that go on -/

theorem proceed_runsOn {x : Exec Unit} {st : Stage}
    (h : Ensures W.toGround x m fun _ m' => m'.RunsOn W.toGround st) :
    Ensures W.toGround (proceed x) m fun result m' => m'.ContinuesOn W.toGround st result :=
  h.bind fun _ _ hruns => hruns

theorem proceed_ready {x : Exec Unit} (h : Ensures W.toGround x m fun _ m' => m'.Ready W.toGround) :
    Ensures W.toGround (proceed x) m fun result m' => m'.ContinuesOn W.toGround .plain result :=
  proceed_runsOn (h.imp fun _ _ hready => hready.runsOn)

end Exec

/-! ## Variables -/

/-- What the code of a call refers to. -/
abbrev Env.of (W : World) (m : Machine) (f : Frame) (bp : Blueprint) : Env :=
  ⟨(m.heap.functionOf f.closure).chunk.constants, W.blueprints, bp.captures, bp.initializes⟩

/-- The value that an instruction reads from a variable. -/
inductive Reading (m : Machine) (f : Frame) : Opcode → UInt8 → Value → Prop
  | fromSlot {i : UInt8} {v : Value} (h : slot? m.values (f.slots + i.toNat) = some v) :
      Reading m f .getLocal i v
  | fromCell {i : UInt8} {id : CellId} {v : Value} (hid : id.index < m.heap.cells.size)
      (h : Exec.Holds m id v) : Reading m f .getUpvalue i v
  | fromGlobal {i : UInt8} {name : String} {v : Value}
      (hname : (Exec.chunkOf m f).constants[i.toNat]? = some (.string name))
      (h : m.globals.get? name = some v) : Reading m f .getGlobal i v

namespace RunsAt

open Exec

variable {W : World} {m : Machine} {f : Frame} {rest : List Frame} {bp : Blueprint}
  {X below : Shape} {st : Stage} {op : Opcode} {i : UInt8} {k : SlotKind}

/-- **A variable is read**: its value is one for its use, and goes onto the stack. -/
theorem read (h : RunsAt W m f rest bp X below st)
    (hbyte : (chunkOf m f).code[f.ip + 1]? = some i)
    (hreads : Reads (.of W m f bp) (X ++ [bp.receiver]) op i k) {Q : Machine → Prop}
    (hQ : ∀ v m', Reading m f op i v → v.HasKind W k → (m.moveTo (f.ip + 2)).Pushed v m' → Q m') :
    ∃ x : Exec Unit, execute op = proceed x ∧
      Ensures W.toGround x (m.moveTo (f.ip + 1)) fun _ => Q := by
  have hpush : ∀ v, Reading m f op i v → v.HasKind W k →
      Ensures W.toGround (push v) (m.moveTo (f.ip + 2)) fun _ => Q := fun v hv hkind =>
    (ensures_push (h.typed.moveTo _).survives v).imp fun _ m' hp => hQ v m' hv hkind hp
  have hframe := frame_eq (Machine.calls_moveTo h.calls (f.ip + 2))
  cases hreads with
  | fromSlot hs =>
    obtain ⟨v, hv, hfills⟩ := h.typed.slot (h.slot hs)
    refine ⟨getLocal, rfl, ?_⟩
    refine Ensures.bind_of_eq (readByte_eq h.calls hbyte) ?_
    refine Ensures.bind_of_eq hframe ?_
    refine Ensures.bind_of_eq (getSlot_eq hv) ?_
    exact hpush v (.fromSlot hv) hfills
  | fromCell hk =>
    obtain ⟨id, hcell, hid⟩ := readCell_eq h.typed.heap h.calls h.function hbyte hk
    have hlt : id.index < m.heap.cells.size :=
      (Array.getElem?_eq_some_iff.1 (h.typed.heap.getElem?_cells hid)).1
    refine ⟨getCaptured, rfl, ?_⟩
    refine Ensures.bind_of_eq hcell ?_
    refine (getCell_at (h.typed.moveTo (f.ip + 2)) hid).bind ?_
    rintro v - ⟨rfl, hholds, hkind⟩
    exact hpush v (.fromCell hlt (hholds.congr rfl rfl)) hkind
  | @fromGlobal _ name hname =>
    refine ⟨getGlobal, rfl, ?_⟩
    refine Ensures.bind_of_eq (readName_eq h.calls hbyte hname) ?_
    refine Ensures.bind_get ?_
    split
    · next v hv => exact hpush v (.fromGlobal hname hv) (.value (h.typed.globals name v hv))
    · exact Ensures.raise (h.typed.moveTo _).survives

/-- **A variable is assigned** the value on top, which stays there. -/
theorem write (h : RunsAt W m f rest bp (.operand :: X) below st)
    (hbyte : (chunkOf m f).code[f.ip + 1]? = some i)
    (hwrites : Writes (.of W m f bp) (X ++ [bp.receiver]) op i)
    (hreaches : Reaches (bp.marks.point? none) (f.ip + 2) (.at (.operand :: X))) :
    Ensures W.toGround (execute op) (m.moveTo (f.ip + 1))
      fun result m' => m'.ContinuesOn W.toGround .plain result := by
  have hat := h.typed.moveTo (f.ip + 2)
  have hgoes : GoesOn W [] (m.moveTo (f.ip + 2)).calls _ := h.goesOn hreaches
  obtain ⟨v, hv, hfills⟩ := hat.value (n := 0) rfl
  have hframe := frame_eq (Machine.calls_moveTo h.calls (f.ip + 2))
  cases hwrites with
  | @toSlot _ s hs hkind =>
    have hslot := h.slot (slot?_append_of_some (X := [.operand]) hs)
    refine proceed_ready (x := setLocal) ?_
    refine Ensures.bind_of_eq (readByte_eq h.calls hbyte) ?_
    refine Ensures.bind_of_eq hframe ?_
    refine Ensures.bind_of_eq (peek_eq hv) ?_
    unfold Ensures setSlot
    rw [if_pos (by rw [Machine.size_stack, hat.length_values]; exact lt_length_of_slot? hslot)]
    refine ⟨W, _, rfl, hat.assigned hslot ?_, hgoes⟩
    rw [Value.Fills, hkind]
    exact hfills
  | toCell hk =>
    obtain ⟨id, hcell, hid⟩ := readCell_eq h.typed.heap h.calls h.function hbyte hk
    refine proceed_ready (x := setCaptured) ?_
    refine Ensures.bind_of_eq hcell ?_
    refine Ensures.bind_of_eq (peek_eq hv) ?_
    refine (setCell_at hat hid hfills).imp fun _ m' hset => ?_
    exact ⟨W, _, rfl, hset.1, hset.2 ▸ hgoes⟩
  | @toGlobal _ name hname =>
    refine proceed_ready (x := setGlobal) ?_
    refine Ensures.bind_of_eq (readName_eq h.calls hbyte hname) ?_
    refine Ensures.bind_get ?_
    dsimp only
    split
    · exact Ensures.bind_raise hat.survives
    · refine Ensures.bind_of_eq (peek_eq hv) ?_
      exact ⟨W, _, rfl, ⟨hat.heap, hat.globals.insert hfills.ok, hat.values, hat.cells⟩, hgoes⟩

/-! ## Jumps -/

/-- The machine goes on elsewhere with the same slots. -/
theorem jumps {ip : Nat} (h : RunsAt W m f rest bp X below st)
    (hreaches : Reaches (bp.marks.point? none) ip (.at X)) :
      (m.moveTo ip).RunsOn W.toGround .plain :=
  h.runsOn (.refl W) rfl (h.typed.moveTo ip) rfl hreaches trivial

/-- A jump comes to a point that the marks allow. -/
theorem jump {high low : UInt8} (h : RunsAt W m f rest bp X below st)
    (hhigh : (chunkOf m f).code[f.ip + 1]? = some high)
    (hlow : (chunkOf m f).code[f.ip + 2]? = some low)
    (hreaches : Reaches (bp.marks.point? none) (f.ip + 3 + distanceOf high low) (.at X)) :
    Ensures W.toGround Exec.jump (m.moveTo (f.ip + 1))
      fun _ m' => m'.RunsOn W.toGround .plain := by
  refine Ensures.bind_of_eq (readShort_eq h.calls hhigh hlow) ?_
  refine Ensures.bind_of_eq (frame_eq (Machine.calls_moveTo h.calls (f.ip + 3))) ?_
  show Machine.RunsOn W.toGround .plain
    ((m.moveTo (f.ip + 3)).moveTo (f.ip + 3 + distanceOf high low))
  rw [Machine.moveTo_moveTo]
  exact h.jumps hreaches

/-- A conditional jump comes to a point that the marks allow, whichever way it goes. -/
theorem jumpIfFalse {high low : UInt8} (h : RunsAt W m f rest bp (.operand :: X) below st)
    (hhigh : (chunkOf m f).code[f.ip + 1]? = some high)
    (hlow : (chunkOf m f).code[f.ip + 2]? = some low)
    (hthen : Reaches (bp.marks.point? none) (f.ip + 3) (.at (.operand :: X)))
    (helse : Reaches (bp.marks.point? none) (f.ip + 3 + distanceOf high low)
      (.at (.operand :: X))) :
    Ensures W.toGround Exec.jumpIfFalse (m.moveTo (f.ip + 1))
      fun _ m' => m'.RunsOn W.toGround .plain := by
  obtain ⟨v, hv, -⟩ := (h.typed.moveTo (f.ip + 3)).value (n := 0) rfl
  refine Ensures.bind_of_eq (readShort_eq h.calls hhigh hlow) ?_
  refine Ensures.bind_of_eq (peek_eq hv) ?_
  split
  · refine Ensures.bind_of_eq (frame_eq (Machine.calls_moveTo h.calls (f.ip + 3))) ?_
    show Machine.RunsOn W.toGround .plain
      ((m.moveTo (f.ip + 3)).moveTo (f.ip + 3 + distanceOf high low))
    rw [Machine.moveTo_moveTo]
    exact h.jumps helse
  · exact h.jumps hthen

/-- A jump back comes to a point that the marks allow. -/
theorem loop {high low : UInt8} (h : RunsAt W m f rest bp X below st)
    (hhigh : (chunkOf m f).code[f.ip + 1]? = some high)
    (hlow : (chunkOf m f).code[f.ip + 2]? = some low) (hle : distanceOf high low ≤ f.ip + 3)
    (hreaches : Reaches (bp.marks.point? none) (f.ip + 3 - distanceOf high low) (.at X)) :
    Ensures W.toGround Exec.loop (m.moveTo (f.ip + 1))
      fun _ m' => m'.RunsOn W.toGround .plain := by
  refine Ensures.bind_of_eq (readShort_eq h.calls hhigh hlow) ?_
  refine Ensures.bind_of_eq (frame_eq (Machine.calls_moveTo h.calls (f.ip + 3))) ?_
  dsimp only
  rw [if_pos hle]
  show Machine.RunsOn W.toGround .plain
    ((m.moveTo (f.ip + 3)).moveTo (f.ip + 3 - distanceOf high low))
  rw [Machine.moveTo_moveTo]
  exact h.jumps hreaches

end RunsAt

namespace Exec

variable {W : World} {S : Shape} {m : Machine} {f : Frame} {rest : List Frame} {s : Slot}

/-! ## Dropping values -/

theorem drop_ready (h : At W (s :: S) m) (hs : s.captured = false) (hw : GoesOn W [] m.calls S) :
    Ensures W.toGround (do let _ ← pop) m fun _ m' => m'.Ready W.toGround :=
  (pop_at h hs).bind fun _ _ ⟨_, hat, hcalls⟩ => ⟨W, S, rfl, hat, hcalls ▸ hw⟩

/-- A captured variable is closed at the end of its scope. -/
theorem dropCaptured_ready (h : At W (s :: S) m) (hw : GoesOn W [] m.calls S) :
    Ensures W.toGround dropCaptured m fun _ m' => m'.Ready W.toGround := by
  have hsize : m.stack.size - 1 = S.length := by
    rw [m.size_stack, h.length_values]
    rfl
  refine Ensures.bind_get (Ensures.bind_modify ?_)
  rw [hsize]
  obtain ⟨v, values, -, hrest, hvalues⟩ := List.forall₂_cons_right_iff.1 h.values
  obtain ⟨hheap, hcells⟩ := Machine.closeCells_ok (X := [s]) h
  refine (ensures_pop (m := m.closeCells S.length) hvalues).bind ?_
  rintro - m' ⟨-, hp⟩
  have hsame : m'.values = values := List.tail_eq_of_cons_eq (hp.values.symm.trans hvalues)
  refine ⟨W, S, rfl, ⟨hp.heap ▸ hheap, ?_, hsame ▸ hrest, ?_⟩, ?_⟩
  · rw [← hp.globals]
    exact h.globals
  · rw [← hp.heap, ← hp.openCells]
    exact hcells
  · rw [← hp.calls]
    exact hw

/-! ## Objects -/

/-- A value below its arguments is called. -/
theorem callOperand_ready {arguments : UInt8}
    (h : At W (List.replicate (arguments.toNat + 1) .operand ++ S) m)
    (hw : GoesOn W [.operand] m.calls S) :
    Ensures W.toGround (do callValue (← peek arguments.toNat) arguments) m fun _ m' =>
      m'.Ready W.toGround := by
  rw [replicate_succ_append] at h
  obtain ⟨v, hv, -⟩ := h.value (n := arguments.toNat) (s := .operand) (by simp)
  refine Ensures.bind_of_eq (peek_eq hv) ?_
  exact callValue_ready h hv hw

/-- A field is set, and its value is left. -/
theorem assignField_ready (name : String) (h : At W (.operand :: .operand :: S) m)
    (hw : GoesOn W [.operand] m.calls S) :
    Ensures W.toGround (do
      let value ← pop
      match ← pop with
      | .instanceRef id => do
        modifyHeap (·.setField id name value)
        push value
      | _ => raise .onlyInstancesHaveFields) m fun _ m' => m'.Ready W.toGround := by
  refine (pop_at h rfl).bind fun value m₁ ⟨hvalue, h₁, hcalls₁⟩ => ?_
  refine (pop_at h₁ rfl).bind ?_
  rintro target m₂ ⟨-, h₂, hcalls₂⟩
  split
  · next id =>
    refine Ensures.bind_modify (push_ready (S := S) ?_ ?_ hvalue.ok)
    · exact ⟨h₂.heap.setField id name hvalue.ok, h₂.globals, h₂.values,
        ⟨h₂.cells.known, h₂.cells.opened⟩⟩
    · show GoesOn W _ m₂.calls S
      rw [hcalls₂, hcalls₁]
      exact hw
  · exact Ensures.raise h₂.survives

/-- A superclass is taken off the stack. -/
theorem popClass_at (h : At W (.temp .parent :: S) m) :
    Ensures W.toGround popClass m fun _ m' => At W S m' ∧ m'.calls = m.calls := by
  refine (pop_at h rfl).bind fun v m' ⟨hv, hat, hcalls⟩ => ?_
  split
  · exact ⟨hat, hcalls⟩
  · next hother =>
    refine Ensures.defect (fun htrusted => ?_) hat.survives
    obtain ⟨id, hid⟩ := hv.class_of_trusted htrusted
    exact hother id hid

/-- A property is read from the superclass on top, for the receiver below it. -/
theorem superProperty_ready (name : String) (h : At W (.temp .parent :: .temp .receiver :: S) m)
    (hw : GoesOn W [.operand] m.calls S) :
    Ensures W.toGround (do
      let superclass ← popClass
      match ← pop with
      | .instanceRef receiver => readSuperProperty superclass receiver name
      | _ => defect (.invalidTypes .instanceKind)) m fun _ m' => m'.Ready W.toGround := by
  refine (popClass_at h).bind fun superclass m₁ ⟨h₁, hcalls₁⟩ => ?_
  refine (pop_at h₁ rfl).bind fun v m₂ ⟨hv, h₂, hcalls₂⟩ => ?_
  split
  · next receiver _ =>
    refine readSuperProperty_ready superclass receiver name h₂ ?_
    rw [hcalls₂, hcalls₁]
    exact hw
  · next hother =>
    refine Ensures.defect (fun htrusted => ?_) h₂.survives
    obtain ⟨id, hid⟩ := hv.instance_of_trusted htrusted
    exact hother id hid

/-- A method of the superclass on top is called on the receiver below the arguments. -/
theorem superMethod_ready (name : String) {arguments : UInt8}
    (h : At W (.temp .parent ::
      (List.replicate arguments.toNat .operand ++ .temp .receiver :: S)) m)
    (hw : GoesOn W [.operand] m.calls S) :
    Ensures W.toGround (do invokeFrom (← popClass) name arguments) m
      fun _ m' => m'.Ready W.toGround := by
  refine (popClass_at h).bind fun superclass m₁ ⟨h₁, hcalls₁⟩ => ?_
  obtain ⟨v, hv, hfills⟩ := h₁.value (n := arguments.toNat) (s := .temp .receiver) (by simp)
  exact invokeFrom_ready name h₁ rfl hv hfills (hcalls₁ ▸ hw)

/-! ## Arrays -/

/-- An array is made of the elements on the stack. -/
theorem makeArray_ready {count : UInt8}
    (h : At W (List.replicate count.toNat .operand ++ S) m) (hw : GoesOn W [.operand] m.calls S) :
    Ensures W.toGround (do
      let elements ← popMany count.toNat
      match (← get).globals.get? "Array" with
      | none => raise .missingArrayClass
      | some arrayClass => do
        push arrayClass
        push (.array elements)
        push (.int (Int64.ofNat count.toNat))
        callValue arrayClass 2) m fun _ m' => m'.Ready W.toGround := by
  refine (popMany_at h).bind fun elements m₁ ⟨helements, h₁, hcalls₁⟩ => ?_
  refine Ensures.bind_get ?_
  split
  · exact Ensures.raise h₁.survives
  · next arrayClass harray =>
    refine (ensures_push h₁.survives arrayClass).bind fun _ m₂ hp₂ => ?_
    have h₂ := h₁.pushed (s := .operand) hp₂ (.value (h₁.globals _ _ harray))
    refine (ensures_push h₂.survives _).bind fun _ m₃ hp₃ => ?_
    have h₃ := h₂.pushed (s := .operand) hp₃ (.value (.array helements))
    refine (ensures_push h₃.survives _).bind fun _ m₄ hp₄ => ?_
    have h₄ := h₃.pushed (s := .operand) hp₄ (.value (.plain rfl))
    have hcallee : m₄.values[2]? = some arrayClass := by
      rw [hp₄.values, hp₃.values, hp₂.values]
      rfl
    refine callValue_ready h₄ hcallee ?_
    rw [hp₄.calls, hp₃.calls, hp₂.calls, hcalls₁]
    exact hw

end Exec

end ScriptVM
