/-
# Chunks of code

A chunk is the code of one function: its bytes, the source line of each byte, and a pool of at most
256 constants in which no two entries can stand for each other.

A forward jump is emitted with a placeholder and patched once its target is known; its distance
counts from behind its own three bytes.  A loop jumps back, and its distance counts from there too.
-/
import ScriptVM.Opcode
import ScriptVM.Value

namespace ScriptVM

/-- The code of one function. -/
structure Chunk where
  /-- The name under which listings show it. -/
  name : String
  /-- The code bytes. -/
  code : Array UInt8
  /-- The source line of each code byte. -/
  lines : Array Nat
  /-- The constants that the code refers to by index. -/
  constants : Array Value
deriving Inhabited

/-- Why a jump could not be encoded. -/
inductive JumpError where
  /-- There is no jump at this offset. -/
  | invalidOffset (offset : Nat)
  /-- The code jumped over is too long. -/
  | jumpTooLong
  /-- The body of the loop is too long. -/
  | loopTooLong
deriving DecidableEq, Repr, Inhabited

/-- The message about a jump that could not be encoded. -/
def JumpError.message : JumpError → String
  | .invalidOffset offset => s!"invalid jump offset {offset}"
  | .jumpTooLong => "Too much code to jump over"
  | .loopTooLong => "Loop body too large"

namespace Chunk

/-- The chunk without code. -/
def empty (name : String) : Chunk :=
  ⟨name, #[], #[], #[]⟩

/-- The number of code bytes. -/
def size (chunk : Chunk) : Nat :=
  chunk.code.size

/-! ## Code -/

/-- Appends a code byte. -/
def addByte (chunk : Chunk) (byte : UInt8) (line : Nat) : Chunk :=
  { chunk with code := chunk.code.push byte, lines := chunk.lines.push line }

/-- Appends an opcode. -/
def addOpcode (chunk : Chunk) (op : Opcode) (line : Nat) : Chunk :=
  chunk.addByte op.toByte line

/-- Appends an opcode with an operand byte. -/
def addInstruction (chunk : Chunk) (op : Opcode) (operand : UInt8) (line : Nat) : Chunk :=
  (chunk.addOpcode op line).addByte operand line

@[simp] theorem size_addByte (chunk : Chunk) (byte : UInt8) (line : Nat) :
    (chunk.addByte byte line).size = chunk.size + 1 := by
  simp [addByte, size]

@[simp] theorem size_lines_addByte (chunk : Chunk) (byte : UInt8) (line : Nat) :
    (chunk.addByte byte line).lines.size = chunk.lines.size + 1 := by
  simp [addByte]

@[simp] theorem constants_addByte (chunk : Chunk) (byte : UInt8) (line : Nat) :
    (chunk.addByte byte line).constants = chunk.constants := rfl

/-- The line of the code byte at an offset. -/
def lineAt? (chunk : Chunk) (offset : Nat) : Option Nat :=
  chunk.lines[offset]?

/-- The two code bytes at an offset, high byte first. -/
def short? (chunk : Chunk) (offset : Nat) : Option Nat := do
  let high ← chunk.code[offset]?
  let low ← chunk.code[offset + 1]?
  return high.toNat * 256 + low.toNat

/-! ## Constants -/

/-- The greatest number of constants in a chunk. -/
def constantLimit : Nat := 256

/-- The constant with an index. -/
def constant? (chunk : Chunk) (index : UInt8) : Option Value :=
  chunk.constants[index.toNat]?

/-- The index of a constant that can stand for `value`, added to the pool if there is none; no
index if the pool is full. -/
def addConstant (chunk : Chunk) (value : Value) : Option UInt8 × Chunk :=
  match chunk.constants.findIdx? (·.sameConstant value) with
  | some index => (some (UInt8.ofNat index), chunk)
  | none =>
    if chunk.constants.size < constantLimit then
      (some (UInt8.ofNat chunk.constants.size),
        { chunk with constants := chunk.constants.push value })
    else (none, chunk)

/-! ## Jumps -/

/-- The greatest distance of a jump. -/
def distanceLimit : Nat := 65535

/-- The number of bytes of a jump. -/
def jumpLength : Nat := 3

/-- Appends a jump with a placeholder for its distance. -/
def addJump (chunk : Chunk) (op : Opcode) (line : Nat) : Chunk :=
  ((chunk.addOpcode op line).addByte 0xFF line).addByte 0xFF line

/-- The high byte of a distance. -/
def highByte (distance : Nat) : UInt8 :=
  UInt8.ofNat (distance / 256)

/-- The low byte of a distance. -/
def lowByte (distance : Nat) : UInt8 :=
  UInt8.ofNat (distance % 256)

/-- Makes the jump at an offset lead to the end of the code. -/
def patchJump (chunk : Chunk) (offset : Nat) : Except JumpError Chunk :=
  if chunk.size < offset + jumpLength then .error (.invalidOffset offset)
  else
    let distance := chunk.size - (offset + jumpLength)
    if distance ≤ distanceLimit then
      let code := chunk.code.setIfInBounds (offset + 1) (highByte distance)
      .ok { chunk with code := code.setIfInBounds (offset + 2) (lowByte distance) }
    else .error .jumpTooLong

/-- Appends a jump back to `start`. -/
def addLoop (chunk : Chunk) (start line : Nat) : Except JumpError Chunk :=
  let distance := chunk.size + jumpLength - start
  if start ≤ chunk.size + jumpLength ∧ distance ≤ distanceLimit then
    let chunk := chunk.addOpcode .loop line
    .ok ((chunk.addByte (highByte distance) line).addByte (lowByte distance) line)
  else .error .loopTooLong

end Chunk

end ScriptVM
