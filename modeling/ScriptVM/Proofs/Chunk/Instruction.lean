/-
# Code as a list of instructions

The bytes of a chunk, cut into instructions.  An instruction is an opcode with its operand bytes,
all on one source line; `Code.bytes` and `Code.lines` are what a chunk stores of it.  Appending to a
chunk is appending to the list (`Appends`), and patching a jump replaces its operands by the length
of the code behind it (`Appends.patchJump`).
-/
import ScriptVM.Chunk

namespace ScriptVM

/-- An instruction with its operand bytes, on one source line. -/
structure Instruction where
  /-- What it does. -/
  op : Opcode
  /-- The bytes behind the opcode. -/
  operands : List UInt8
  /-- The line it comes from. -/
  line : Nat
deriving DecidableEq, Repr

namespace Instruction

/-- The bytes of an instruction. -/
def bytes (i : Instruction) : List UInt8 :=
  i.op.toByte :: i.operands

/-- The number of bytes of an instruction. -/
def size (i : Instruction) : Nat :=
  i.operands.length + 1

/-- The line of each byte of an instruction. -/
def lines (i : Instruction) : List Nat :=
  List.replicate i.size i.line

@[simp] theorem length_bytes (i : Instruction) : i.bytes.length = i.size := rfl

@[simp] theorem length_lines (i : Instruction) : i.lines.length = i.size := by
  simp [lines]

theorem size_pos (i : Instruction) : 0 < i.size := Nat.succ_pos _

end Instruction

/-- A piece of code. -/
abbrev Code := List Instruction

namespace Code

/-- The bytes of a piece of code. -/
def bytes (code : Code) : List UInt8 :=
  code.flatMap Instruction.bytes

/-- The line of each byte of a piece of code. -/
def lines (code : Code) : List Nat :=
  code.flatMap Instruction.lines

/-- The number of bytes of a piece of code. -/
def extent (code : Code) : Nat :=
  code.bytes.length

/-- The offsets at which a piece of code can be cut into two: those of its instructions, and its
end. -/
def Boundary (code : Code) (offset : Nat) : Prop :=
  ∃ before behind, code = before ++ behind ∧ offset = extent before

@[simp] theorem bytes_nil : bytes [] = [] := rfl

@[simp] theorem bytes_cons (i : Instruction) (code : Code) :
    bytes (i :: code) = i.bytes ++ bytes code := by
  simp [bytes]

@[simp] theorem bytes_append (a b : Code) : bytes (a ++ b) = bytes a ++ bytes b := by
  simp [bytes]

@[simp] theorem lines_nil : lines [] = [] := rfl

@[simp] theorem lines_cons (i : Instruction) (code : Code) :
    lines (i :: code) = i.lines ++ lines code := by
  simp [lines]

@[simp] theorem lines_append (a b : Code) : lines (a ++ b) = lines a ++ lines b := by
  simp [lines]

@[simp] theorem extent_nil : extent [] = 0 := rfl

@[simp] theorem extent_cons (i : Instruction) (code : Code) :
    extent (i :: code) = i.size + extent code := by
  simp [extent]

@[simp] theorem extent_append (a b : Code) : extent (a ++ b) = extent a + extent b := by
  simp [extent]

@[simp] theorem length_lines (code : Code) : (lines code).length = extent code := by
  induction code with
  | nil => rfl
  | cons i rest ih => simp [ih]

theorem boundary_zero (code : Code) : code.Boundary 0 := ⟨[], code, rfl, rfl⟩

/-- An instruction starts within the code, or at its end. -/
theorem Boundary.le_extent {code : Code} {offset : Nat} (h : code.Boundary offset) :
    offset ≤ code.extent := by
  obtain ⟨before, behind, rfl, rfl⟩ := h
  rw [extent_append]
  omega

theorem Boundary.append_left {b : Code} {offset : Nat} (a : Code) (h : b.Boundary offset) :
    Boundary (a ++ b) (a.extent + offset) := by
  obtain ⟨before, behind, rfl, rfl⟩ := h
  exact ⟨a ++ before, behind, by rw [List.append_assoc], by rw [extent_append]⟩

end Code

/-! ## Distances -/

/-- The operand bytes of a jump over a distance. -/
def distanceBytes (distance : Nat) : List UInt8 :=
  [Chunk.highByte distance, Chunk.lowByte distance]

@[simp] theorem length_distanceBytes (distance : Nat) : (distanceBytes distance).length = 2 := rfl

/-- The distance that two operand bytes stand for. -/
def distanceOf (high low : UInt8) : Nat :=
  high.toNat * 256 + low.toNat

/-- A distance is read from the two bytes that it is written in. -/
theorem distanceOf_distanceBytes {distance : Nat} (h : distance ≤ Chunk.distanceLimit) :
    distanceOf (Chunk.highByte distance) (Chunk.lowByte distance) = distance := by
  unfold Chunk.distanceLimit at h
  have hhigh : (Chunk.highByte distance).toNat = distance / 256 := by
    rw [Chunk.highByte, UInt8.toNat_ofNat_of_lt']
    show distance / 256 < 256
    omega
  have hlow : (Chunk.lowByte distance).toNat = distance % 256 := by
    rw [Chunk.lowByte, UInt8.toNat_ofNat_of_lt']
    show distance % 256 < 256
    omega
  rw [distanceOf, hhigh, hlow]
  omega

namespace Chunk

/-! ## Appending code -/

/-- A chunk is another with a piece of code appended; its constants may be others. -/
structure Appends (chunk chunk' : Chunk) (code : Code) : Prop where
  /-- The bytes are appended. -/
  code_eq : chunk'.code.toList = chunk.code.toList ++ code.bytes
  /-- The lines are appended. -/
  lines_eq : chunk'.lines.toList = chunk.lines.toList ++ code.lines

namespace Appends

variable {chunk chunk₁ chunk₂ : Chunk} {a b : Code}

theorem refl (chunk : Chunk) : chunk.Appends chunk [] :=
  ⟨by simp, by simp⟩

theorem trans (h₁ : chunk.Appends chunk₁ a) (h₂ : chunk₁.Appends chunk₂ b) :
    chunk.Appends chunk₂ (a ++ b) :=
  ⟨by rw [h₂.code_eq, h₁.code_eq, Code.bytes_append, List.append_assoc],
    by rw [h₂.lines_eq, h₁.lines_eq, Code.lines_append, List.append_assoc]⟩

theorem size_eq (h : chunk.Appends chunk₁ a) : chunk₁.size = chunk.size + a.extent := by
  have := congrArg List.length h.code_eq
  simpa [size, Code.extent] using this

theorem addOpcode (chunk : Chunk) (op : Opcode) (line : Nat) :
    chunk.Appends (chunk.addOpcode op line) [⟨op, [], line⟩] := by
  constructor <;>
    simp [Chunk.addOpcode, addByte, Instruction.bytes, Instruction.lines, Instruction.size]

/-- An instruction with an operand is appended as it is. -/
theorem addInstruction (chunk : Chunk) (op : Opcode) (operand : UInt8) (line : Nat) :
    chunk.Appends (chunk.addInstruction op operand line) [⟨op, [operand], line⟩] := by
  constructor <;>
    simp [Chunk.addInstruction, Chunk.addOpcode, addByte, Instruction.bytes, Instruction.lines,
      Instruction.size, List.replicate]

/-- A jump is appended with a placeholder for its distance. -/
theorem addJump (chunk : Chunk) (op : Opcode) (line : Nat) :
    chunk.Appends (chunk.addJump op line) [⟨op, [0xFF, 0xFF], line⟩] := by
  constructor <;>
    simp [Chunk.addJump, Chunk.addOpcode, addByte, Instruction.bytes, Instruction.lines,
      Instruction.size, List.replicate]

/-- An operand byte is appended to the instruction in front of it, if it is on the same line. -/
theorem addByte {op : Opcode} {operands : List UInt8} {line : Nat}
    (h : chunk.Appends chunk₁ (a ++ [⟨op, operands, line⟩])) (byte : UInt8) :
    chunk.Appends (chunk₁.addByte byte line) (a ++ [⟨op, operands ++ [byte], line⟩]) := by
  constructor
  · simp [Chunk.addByte, h.code_eq, Instruction.bytes]
  · have hline : List.replicate (operands.length + 1 + 1) line
        = List.replicate (operands.length + 1) line ++ [line] := List.replicate_succ'
    simp [Chunk.addByte, h.lines_eq, Instruction.lines, Instruction.size, hline]

/-- A loop is appended just if its distance fits into two bytes, and then with that distance. -/
theorem addLoop {start line : Nat} (h : chunk.addLoop start line = .ok chunk₁) :
    start ≤ chunk.size + jumpLength ∧
      chunk.size + jumpLength - start ≤ distanceLimit ∧
      chunk.Appends chunk₁ [⟨.loop, distanceBytes (chunk.size + jumpLength - start), line⟩] ∧
      chunk₁.constants = chunk.constants := by
  rw [Chunk.addLoop] at h
  dsimp only at h
  split at h
  · next hfits =>
    injection h with h
    subst h
    refine ⟨hfits.1, hfits.2, ⟨?_, ?_⟩, rfl⟩ <;>
      simp [Chunk.addOpcode, Chunk.addByte, Instruction.bytes, Instruction.lines, Instruction.size,
        distanceBytes, List.replicate]
  · simp at h

/-- The bytes of a list once the two behind a place are replaced. -/
theorem set_set_bytes (pre rest : List UInt8) (op x y high low : UInt8) :
    ((pre ++ op :: x :: y :: rest).set (pre.length + 1) high).set (pre.length + 2) low
      = pre ++ op :: high :: low :: rest := by
  induction pre with
  | nil => rfl
  | cons p pre ih =>
    rw [List.cons_append, List.length_cons,
      show pre.length + 1 + 1 = (pre.length + 1) + 1 from rfl, List.set_cons_succ,
      show pre.length + 1 + 2 = (pre.length + 2) + 1 from rfl, List.set_cons_succ, ih,
      List.cons_append]

/-- **Patching a jump** makes its operands the length of the code behind it, and changes nothing
else. -/
theorem patchJump {op : Opcode} {x y : UInt8} {line : Nat}
    (h : chunk.Appends chunk₁ (a ++ ⟨op, [x, y], line⟩ :: b))
    (hpatch : chunk₁.patchJump (chunk.size + a.extent) = .ok chunk₂) :
    b.extent ≤ distanceLimit ∧
      chunk.Appends chunk₂ (a ++ ⟨op, distanceBytes b.extent, line⟩ :: b) ∧
      chunk₂.constants = chunk₁.constants := by
  have hsize := h.size_eq
  rw [Code.extent_append, Code.extent_cons] at hsize
  have hjump : (⟨op, [x, y], line⟩ : Instruction).size = jumpLength := rfl
  rw [hjump] at hsize
  have hdistance : chunk₁.size - (chunk.size + a.extent + jumpLength) = b.extent := by omega
  rw [Chunk.patchJump, if_neg (by omega)] at hpatch
  dsimp only at hpatch
  rw [hdistance] at hpatch
  split at hpatch
  · next hfits =>
    injection hpatch with hpatch
    subst hpatch
    refine ⟨hfits, ⟨?_, ?_⟩, rfl⟩
    · have hpre : chunk.size + a.extent = (chunk.code.toList ++ a.bytes).length := by
        simp [Chunk.size, Code.extent]
      have hcode : chunk₁.code.toList
          = (chunk.code.toList ++ a.bytes) ++ op.toByte :: x :: y :: b.bytes := by
        rw [h.code_eq]
        simp [Instruction.bytes]
      simp only [Array.toList_setIfInBounds, hcode, hpre, set_set_bytes]
      simp [Instruction.bytes, distanceBytes]
    · show chunk₁.lines.toList = _
      rw [h.lines_eq]
      simp [Instruction.lines, Instruction.size]
  · simp at hpatch

end Appends

end Chunk

end ScriptVM
