/-
# Reading marked code from bytes

A chunk whose bytes are those of some code has each instruction where the code in front of it ends
(`HasAt`).  Where something is known about marked code, an instruction starts
(`Marks.exists_cut_of_point?`).
-/
import ScriptVM.Chunk.Decode
import ScriptVM.Proofs.Chunk.Flow

namespace ScriptVM

/-- An instruction stands at an offset of a chunk. -/
structure Chunk.HasAt (chunk : Chunk) (offset : Nat) (i : Instruction) : Prop where
  /-- The opcode comes first. -/
  op : chunk.code[offset]? = some i.op.toByte
  /-- The operands follow. -/
  operand : ∀ {k : Nat} {byte : UInt8}, i.operands[k]? = some byte →
    chunk.code[offset + 1 + k]? = some byte
  /-- All bytes are on one line. -/
  line : ∀ k < i.size, chunk.lines[offset + k]? = some i.line

/-- What is in the middle of a list stands behind what is in front of it. -/
theorem getElem?_middle {α : Type} (front back : List α) {middle : List α} {k : Nat} {x : α}
    (h : middle[k]? = some x) : (front ++ (middle ++ back))[front.length + k]? = some x := by
  rw [List.getElem?_append_right (Nat.le_add_right _ _), Nat.add_sub_cancel_left,
    List.getElem?_append_left (List.getElem?_eq_some_iff.1 h).1, h]

/-- Code with an instruction in the middle has it where what is in front ends. -/
theorem Chunk.HasAt.of_code {chunk : Chunk} {front back : Code} {i : Instruction}
    (hcode : chunk.code.toList = (front ++ i :: back : Code).bytes)
    (hlines : chunk.lines.toList = (front ++ i :: back : Code).lines) :
    chunk.HasAt front.extent i := by
  have hbyte : ∀ k byte, i.bytes[k]? = some byte → chunk.code[front.extent + k]? = some byte := by
    intro k byte hk
    rw [← Array.getElem?_toList, hcode, Code.bytes_append, Code.bytes_cons, Code.extent]
    exact getElem?_middle _ _ hk
  refine ⟨hbyte 0 _ rfl, fun {k byte} hk => ?_, fun k hk => ?_⟩
  · rw [Nat.add_assoc]
    refine hbyte (1 + k) byte ?_
    rw [Nat.add_comm]
    exact hk
  · rw [← Array.getElem?_toList, hlines, Code.lines_append, Code.lines_cons,
      ← Code.length_lines front]
    exact getElem?_middle _ _ (List.getElem?_replicate_of_lt hk)

theorem Chunk.HasAt.opcodeAt? {chunk : Chunk} {offset : Nat} {i : Instruction}
    (h : chunk.HasAt offset i) : chunk.opcodeAt? offset = some i.op := by
  rw [Chunk.opcodeAt?, h.op]
  exact Opcode.ofByte?_toByte i.op

/-- What is known stands in front of an instruction, if nothing is known behind the code. -/
theorem Marks.exists_cut_of_point? {marks : Marks} {offset : Nat} {p : Point}
    (h : marks.point? none offset = some p) :
    ∃ (front : Marks) (m : Mark) (back : Marks),
      marks = front ++ m :: back ∧ offset = front.code.extent ∧ m.point = p := by
  induction marks generalizing offset with
  | nil =>
    rw [point?] at h
    split at h <;> simp at h
  | cons m rest ih =>
    rw [point?] at h
    split at h
    · next hzero => exact ⟨[], m, rest, rfl, hzero, Option.some.inj h⟩
    · split at h
      · simp at h
      · next hsize =>
        obtain ⟨front, m', back, rfl, hoffset, hp⟩ := ih h
        refine ⟨m :: front, m', back, rfl, ?_, hp⟩
        rw [code_cons, Code.extent_cons, ← hoffset]
        omega

/-- At a cut of marked code its next mark is known. -/
theorem Marks.point?_cut (exit : Option Point) (front back : Marks) (m : Mark) :
    (front ++ m :: back).point? exit front.code.extent = some m.point := by
  have h := point?_append_right exit front (m :: back) 0
  rwa [Nat.add_zero, point?_cons_zero] at h

/-- The instruction at a cut of marked code that holds leads to known points. -/
theorem Marks.Hold.cut {Γ : Env} {S : Shape} {points : Nat → Option Point} {front back : Marks}
    {m : Mark} (h : (front ++ m :: back).Hold Γ S points 0) :
    Leads Γ S points (front.code.extent + m.instruction.size) m.instruction.op
      m.instruction.operands m.point := by
  have h := (hold_append.1 h).2.1
  rwa [Nat.zero_add] at h

end ScriptVM
