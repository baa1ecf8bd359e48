/-
# Listings

A chunk written out one instruction a line, followed by the listings of the functions among its
constants.  Code that does not decode is listed too, byte by byte.
-/
import ScriptVM.Chunk.Decode
import ScriptVM.Text.Pad
import ScriptVM.Value.Text

namespace ScriptVM.Chunk

/-! ## One instruction -/

/-- The operand of an instruction that refers to a constant. -/
def constantText (heap : Heap) (chunk : Chunk) : Option UInt8 → String
  | some index =>
    match chunk.constant? index with
    | some value => s!"{index.toNat} {value.display heap}"
    | none => s!"(index 0x{Text.hexPadded 2 index.toNat} unknown)"
  | none => "(unknown)"

/-- The operand of an instruction that takes a byte. -/
def byteText : Option UInt8 → String
  | some byte => toString byte.toNat
  | none => "(unknown)"

/-- The operand of a jump at an offset; a jump back has the sign `-1`. -/
def jumpText (chunk : Chunk) (offset : Nat) (sign : Int) : String :=
  match chunk.short? (offset + 1) with
  | some distance =>
    let target : Int := offset + 3 + sign * distance
    s!"{offset} -> {target}"
  | none => "(unknown)"

/-- The operands of a method call at an offset. -/
def invocationText (heap : Heap) (chunk : Chunk) (offset : Nat) : String :=
  let name := (chunk.code[offset + 1]?.bind chunk.constant?).map (·.display heap)
  let shown := name.getD "(unknown)"
  let count := (chunk.code.getD (offset + 2) 0).toNat
  s!".{shown} {count}"

/-- The line about the captured variable number `i` of the closure at an offset. -/
def captureText (chunk : Chunk) (offset i : Nat) : String :=
  let origin := chunk.code.getD (offset + 2 + 2 * i) 0
  let index := (chunk.code.getD (offset + 3 + 2 * i) 0).toNat
  "\n" ++ Text.padLeft 14 ' ' "|" ++ s!" {index} " ++ (if origin = 1 then "local" else "upvalue")

/-- The operands of a closure at an offset, one more line for each captured variable. -/
def closureText (heap : Heap) (chunk : Chunk) (offset : Nat) : String :=
  match chunk.code[offset + 1]? with
  | none => "(unknown)"
  | some index =>
    match chunk.functionAt? heap index with
    | none => "(unknown)"
    | some function =>
      let captures := (List.range function.captureCount).map (chunk.captureText offset)
      s!"{index.toNat} {function.display}" ++ String.join captures

/-- The operands of the instruction at an offset. -/
def operandText (heap : Heap) (chunk : Chunk) (offset : Nat) : Opcode.Operands → Option String
  | .none => none
  | .constant => some (chunk.constantText heap chunk.code[offset + 1]?)
  | .byte => some (byteText chunk.code[offset + 1]?)
  | .forward => some (chunk.jumpText offset 1)
  | .backward => some (chunk.jumpText offset (-1))
  | .invocation => some (chunk.invocationText heap offset)
  | .captures => some (chunk.closureText heap offset)

/-- The text of the instruction at an offset. -/
def instructionText (heap : Heap) (chunk : Chunk) (offset : Nat) : String :=
  match chunk.opcodeAt? offset with
  | none => s!"Unknown opcode 0x{Text.hexPadded 2 (chunk.code.getD offset 0).toNat}"
  | some op =>
    match chunk.operandText heap offset op.operands with
    | none => op.name
    | some operands => s!"{op.name} {operands}"

/-! ## Whole chunks -/

/-- The offset that starts a line of a listing. -/
def offsetText (offset : Nat) : String :=
  s!"0x{Text.hexPadded 4 offset} "

/-- The source line of an instruction, or a bar if it is that of the instruction before. -/
def lineText (previous : Option Nat) (line : Nat) : String :=
  if previous = some line then "   | " else s!"{Text.decimalPadded 4 line} "

/-- The lines of a listing from an offset on; `bound` limits their number. -/
def listingFrom (heap : Heap) (chunk : Chunk) : Nat → Option Nat → Nat → List String
  | 0, _, _ => []
  | bound + 1, previous, offset =>
    if offset < chunk.size then
      let line := chunk.lines.getD offset 0
      let length := (chunk.instructionLength? heap offset).getD 1
      let text := chunk.instructionText heap offset
      (offsetText offset ++ lineText previous line ++ text ++ "\n") ::
        listingFrom heap chunk bound (some line) (offset + length)
    else []

/-- The listing of a chunk's own code. -/
def ownListing (heap : Heap) (chunk : Chunk) : String :=
  s!"== {chunk.name} ==\n" ++ String.join (listingFrom heap chunk chunk.size none 0)

/-- The listing of a chunk and, down to a depth, of the functions in its constants. -/
def listingToDepth (heap : Heap) : Nat → Chunk → String
  | 0, chunk => chunk.ownListing heap
  | depth + 1, chunk =>
    let inner := chunk.constants.toList.filterMap fun value =>
      value.function?.map fun id => "\n" ++ listingToDepth heap depth (heap.function id).chunk
    chunk.ownListing heap ++ String.join inner

/-- The listing of a chunk and of all functions in its constants.  A function is created after those
in its constants, so the number of functions bounds the depth. -/
def listing (heap : Heap) (chunk : Chunk) : String :=
  listingToDepth heap heap.functions.size chunk

/-- One instruction with its offset and line. -/
def instructionListing? (heap : Heap) (chunk : Chunk) (offset : Nat) : Option String := do
  let line ← chunk.lineAt? offset
  return offsetText offset ++ s!"{Text.decimalPadded 4 line} " ++ chunk.instructionText heap offset

/-- The listing of a chunk with its constants. -/
def debug (heap : Heap) (chunk : Chunk) : String :=
  let constants := chunk.constants.toList.zipIdx.map fun (value, i) =>
    s!"{Text.decimalPadded 4 i}: {value.debug heap}\n"
  chunk.listing heap ++ "\nConstants:\n" ++ String.join constants

end ScriptVM.Chunk
