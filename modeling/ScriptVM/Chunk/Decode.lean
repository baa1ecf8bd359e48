/-
# Decoding code

The code of a chunk as a sequence of instructions.  The length of an instruction follows from its
opcode alone, except that a `closure` carries a pair of bytes for each variable its function
captures.
-/
import ScriptVM.Heap

namespace ScriptVM.Chunk

/-- The function of the constant with an index. -/
def functionAt? (heap : Heap) (chunk : Chunk) (index : UInt8) : Option Function := do
  let value ← chunk.constant? index
  let id ← value.function?
  return heap.function id

/-- The opcode at an offset. -/
def opcodeAt? (chunk : Chunk) (offset : Nat) : Option Opcode := do
  let byte ← chunk.code[offset]?
  Opcode.ofByte? byte

/-- The number of bytes of the instruction at an offset, operands included. -/
def instructionLength? (heap : Heap) (chunk : Chunk) (offset : Nat) : Option Nat := do
  let op ← chunk.opcodeAt? offset
  let length := 1 + op.operandLength
  if op = .closure then
    let index ← chunk.code[offset + 1]?
    let function ← chunk.functionAt? heap index
    return length + 2 * function.captureCount
  else
    return length

/-- The instructions from an offset on, up to the first byte that is no instruction; `bound` limits
their number. -/
def instructionsFrom (heap : Heap) (chunk : Chunk) : Nat → Nat → List (Nat × Opcode)
  | 0, _ => []
  | bound + 1, offset =>
    match chunk.opcodeAt? offset, chunk.instructionLength? heap offset with
    | some op, some length => (offset, op) :: instructionsFrom heap chunk bound (offset + length)
    | _, _ => []

/-- The instructions of a chunk with their offsets, up to the first byte that is no instruction. -/
def instructions (heap : Heap) (chunk : Chunk) : List (Nat × Opcode) :=
  instructionsFrom heap chunk chunk.size 0

end ScriptVM.Chunk
