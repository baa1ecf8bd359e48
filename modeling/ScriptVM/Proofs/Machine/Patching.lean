/-
# Patching jumps

While a function is compiled its chunk is edited (`Chunk.Edit`): bytes are appended, jumps are
emitted with a placeholder and patched later, loops jump back.  A `Chunk.Draft` is a chunk with the
jumps in it that are still to be patched; their operands are all that an edit may change of the code
that is there.

So a pending jump can be patched at any time if its target is near enough.  That changes its two
operands and nothing else, and from then on the machine that takes the jump lands where the code
ended, whatever is appended and patched later (`Chunk.Draft.Patches`); likewise for a loop
(`Chunk.Draft.Loops`).  An edit that fails changes nothing.

Main statement: `Chunk.patching`.
-/
import ScriptVM.Proofs.Chunk.Constants
import ScriptVM.Proofs.Machine.Agreement
import ScriptVM.Proofs.Program.Steps

namespace ScriptVM

namespace Chunk

/-! ## Edits -/

/-- What is done to a chunk while its function is compiled. -/
inductive Edit where
  /-- A byte is appended. -/
  | byte (byte : UInt8) (line : Nat)
  /-- An opcode is appended. -/
  | opcode (op : Opcode) (line : Nat)
  /-- An opcode with an operand is appended. -/
  | instruction (op : Opcode) (operand : UInt8) (line : Nat)
  /-- A constant is added. -/
  | constant (value : Value)
  /-- A jump is appended, with a placeholder for its distance. -/
  | jump (op : Opcode) (line : Nat)
  /-- The jump at an offset is made to lead to the end of the code. -/
  | patch (offset : Nat)
  /-- A jump back is appended. -/
  | loop (start line : Nat)

/-- The chunk that an edit gives, or why it fails. -/
def Edit.apply (chunk : Chunk) : Edit → Except JumpError Chunk
  | .byte x line => .ok (chunk.addByte x line)
  | .opcode op line => .ok (chunk.addOpcode op line)
  | .instruction op operand line => .ok (chunk.addInstruction op operand line)
  | .constant value => .ok (chunk.addConstant value).2
  | .jump op line => .ok (chunk.addJump op line)
  | .patch offset => chunk.patchJump offset
  | .loop start line => chunk.addLoop start line

/-- The chunk behind an edit; one that fails leaves the chunk as it is. -/
def edit (chunk : Chunk) (e : Edit) : Chunk :=
  match e.apply chunk with
  | .ok chunk' => chunk'
  | .error _ => chunk

/-- The chunk behind some edits. -/
def edits (chunk : Chunk) (es : List Edit) : Chunk :=
  es.foldl edit chunk

variable {chunk chunk' : Chunk} {offset start line k : Nat}

/-! ### Jumps that are patched -/

/-- The chunk in which the jump at an offset has a distance. -/
def withDistance (chunk : Chunk) (offset distance : Nat) : Chunk :=
  { chunk with
    code := (chunk.code.setIfInBounds (offset + 1) (highByte distance)).setIfInBounds (offset + 2)
      (lowByte distance) }

/-- A jump whose distance fits is patched with the distance to the end of the code. -/
theorem patchJump_of_le (hwithin : offset + 3 ≤ chunk.size)
    (hfits : chunk.size - (offset + 3) ≤ 65535) :
    chunk.patchJump offset = .ok (chunk.withDistance offset (chunk.size - (offset + 3))) := by
  have hnot : ¬chunk.size < offset + jumpLength := Nat.not_lt.2 hwithin
  rw [patchJump, if_neg hnot]
  exact if_pos hfits

/-- A jump whose distance does not fit is not patched. -/
theorem patchJump_of_gt (hwithin : offset + 3 ≤ chunk.size)
    (hfar : ¬chunk.size - (offset + 3) ≤ 65535) : chunk.patchJump offset = .error .jumpTooLong := by
  have hnot : ¬chunk.size < offset + jumpLength := Nat.not_lt.2 hwithin
  rw [patchJump, if_neg hnot]
  exact if_neg hfar

/-- Where a jump was patched, its distance reaches to the end of the code. -/
theorem of_patchJump (h : chunk.patchJump offset = .ok chunk') : offset + 3 ≤ chunk.size ∧
    chunk.size - (offset + 3) ≤ 65535 ∧
    chunk' = chunk.withDistance offset (chunk.size - (offset + 3)) := by
  have hwithin : offset + 3 ≤ chunk.size := by
    by_contra hless
    have hlt : chunk.size < offset + jumpLength := Nat.lt_of_not_le hless
    rw [patchJump, if_pos hlt] at h
    cases h
  have hfits : chunk.size - (offset + 3) ≤ 65535 := by
    by_contra hfar
    rw [patchJump_of_gt hwithin hfar] at h
    cases h
  rw [patchJump_of_le hwithin hfits] at h
  exact ⟨hwithin, hfits, (Except.ok.inj h).symm⟩

@[simp] theorem size_withDistance (chunk : Chunk) (offset distance : Nat) :
    (chunk.withDistance offset distance).size = chunk.size := by
  simp [withDistance, size]

/-- The operands of the jump are all that changes. -/
theorem code_withDistance (distance : Nat) (hfirst : k ≠ offset + 1) (hsecond : k ≠ offset + 2) :
    (chunk.withDistance offset distance).code[k]? = chunk.code[k]? := by
  rw [withDistance, Array.getElem?_setIfInBounds_ne (Ne.symm hsecond),
    Array.getElem?_setIfInBounds_ne (Ne.symm hfirst)]

/-- The distance that a jump is given is the one that is read. -/
theorem short?_withDistance {distance : Nat} (hwithin : offset + 3 ≤ chunk.size)
    (hfits : distance ≤ 65535) :
    (chunk.withDistance offset distance).short? (offset + 1) = some distance := by
  have hlt : offset + 1 < chunk.code.size := by
    rw [size] at hwithin
    omega
  have hlt' : offset + 2 < chunk.code.size := by
    rw [size] at hwithin
    omega
  have hhigh : (chunk.withDistance offset distance).code[offset + 1]? =
    some (highByte distance) := by
    rw [withDistance, Array.getElem?_setIfInBounds_ne (by omega),
      Array.getElem?_setIfInBounds_self_of_lt hlt]
  have hlow : (chunk.withDistance offset distance).code[offset + 1 + 1]? =
    some (lowByte distance) := by
    rw [withDistance]
    exact Array.getElem?_setIfInBounds_self_of_lt (by simpa using hlt')
  rw [short?, hhigh, hlow]
  exact congrArg some (distanceOf_distanceBytes hfits)

/-! ### Loops -/

/-- The chunk behind a jump back over a distance. -/
def withLoop (chunk : Chunk) (distance line : Nat) : Chunk :=
  ((chunk.addOpcode .loop line).addByte (highByte distance) line).addByte (lowByte distance) line

theorem addLoop_of_le (hstart : start ≤ chunk.size) (hfits : chunk.size + 3 - start ≤ 65535) :
    chunk.addLoop start line = .ok (chunk.withLoop (chunk.size + 3 - start) line) :=
  if_pos ⟨Nat.le_trans hstart (Nat.le_add_right _ _), hfits⟩

theorem addLoop_of_gt (hfar : ¬chunk.size + 3 - start ≤ 65535) :
    chunk.addLoop start line = .error .loopTooLong :=
  if_neg fun h => hfar h.2

/-- A loop that is emitted has a distance that fits, the one over its body and itself. -/
theorem of_addLoop (h : chunk.addLoop start line = .ok chunk') :
    chunk.size + 3 - start ≤ 65535 ∧ chunk' = chunk.withLoop (chunk.size + 3 - start) line := by
  by_cases hfits : start ≤ chunk.size + 3 ∧ chunk.size + 3 - start ≤ 65535
  · have heq : chunk.addLoop start line = .ok (chunk.withLoop (chunk.size + 3 - start) line) :=
      if_pos hfits
    exact ⟨hfits.2, (Except.ok.inj (heq.symm.trans h)).symm⟩
  · have heq : chunk.addLoop start line = .error .loopTooLong := if_neg hfits
    rw [heq] at h
    cases h

@[simp] theorem size_withLoop (chunk : Chunk) (distance line : Nat) :
    (chunk.withLoop distance line).size = chunk.size + 3 := by
  simp [withLoop, addOpcode]

theorem toList_withLoop (chunk : Chunk) (distance line : Nat) :
    (chunk.withLoop distance line).code.toList
      = chunk.code.toList ++ [Opcode.loop.toByte, highByte distance, lowByte distance] := by
  simp [withLoop, addOpcode, addByte]

/-- The bytes of the jump back stand behind the code. -/
theorem code_withLoop {distance : Nat} :
    (chunk.withLoop distance line).code[chunk.size + k]?
      = [Opcode.loop.toByte, highByte distance, lowByte distance][k]? := by
  rw [← Array.getElem?_toList, toList_withLoop, size, ← Array.length_toList,
    List.getElem?_append_right (Nat.le_add_right _ _), Nat.add_sub_cancel_left]

/-- The distance of a jump back is the one that is read. -/
theorem short?_withLoop {distance : Nat} (hfits : distance ≤ 65535) :
    (chunk.withLoop distance line).short? (chunk.size + 1) = some distance := by
  have hhigh : (chunk.withLoop distance line).code[chunk.size + 1]? = some (highByte distance) :=
    code_withLoop
  have hlow : (chunk.withLoop distance line).code[chunk.size + 1 + 1]? = some (lowByte distance) :=
    code_withLoop
  rw [short?, hhigh, hlow]
  exact congrArg some (distanceOf_distanceBytes hfits)

/-! ### Appended code -/

/-- A chunk is another with some bytes appended. -/
def Extends (chunk chunk' : Chunk) : Prop :=
  ∃ bytes, chunk'.code.toList = chunk.code.toList ++ bytes

theorem Extends.refl (chunk : Chunk) : chunk.Extends chunk :=
  ⟨[], by simp⟩

/-- What a chunk extends to is not shorter. -/
theorem Extends.size_le (h : chunk.Extends chunk') : chunk.size ≤ chunk'.size := by
  obtain ⟨bytes, hbytes⟩ := h
  have hlength := congrArg List.length hbytes
  rw [List.length_append, Array.length_toList, Array.length_toList] at hlength
  rw [size, size]
  omega

/-- The bytes of a chunk stay where they are. -/
theorem Extends.code_eq (h : chunk.Extends chunk') (hk : k < chunk.size) :
    chunk'.code[k]? = chunk.code[k]? := by
  obtain ⟨bytes, hbytes⟩ := h
  rw [← Array.getElem?_toList, ← Array.getElem?_toList, hbytes]
  exact List.getElem?_append_left (by rwa [Array.length_toList])

theorem toList_addByte (chunk : Chunk) (byte : UInt8) (line : Nat) :
    (chunk.addByte byte line).code.toList = chunk.code.toList ++ [byte] := by
  rw [addByte, Array.toList_push]

theorem extends_withLoop (chunk : Chunk) (distance line : Nat) :
    chunk.Extends (chunk.withLoop distance line) :=
  ⟨_, toList_withLoop chunk distance line⟩

/-- Every edit but a patch appends code, or none. -/
theorem extends_edit {e : Edit} (h : ∀ offset, e ≠ .patch offset) :
    chunk.Extends (chunk.edit e) := by
  cases e with
  | byte x line => exact ⟨[x], toList_addByte chunk x line⟩
  | opcode op line => exact ⟨[op.toByte], toList_addByte chunk op.toByte line⟩
  | instruction op operand line =>
    exact ⟨[op.toByte, operand], by
      simp [edit, Edit.apply, addInstruction, addOpcode, toList_addByte]⟩
  | constant value =>
    refine ⟨[], ?_⟩
    rcases chunk.addConstant_cases value with ⟨i, -, -, heq⟩ | ⟨-, -, heq⟩ | ⟨-, -, heq⟩ <;>
      simp [edit, Edit.apply, heq]
  | jump op line =>
    exact ⟨[op.toByte, 0xFF, 0xFF], by simp [edit, Edit.apply, addJump, addOpcode, toList_addByte]⟩
  | patch offset => exact absurd rfl (h offset)
  | loop start line =>
    unfold edit Edit.apply
    split
    · next chunk' heq =>
      obtain ⟨-, rfl⟩ := of_addLoop heq
      exact chunk.extends_withLoop _ _
    · exact .refl chunk

/-! ### The line table -/

/-- **The line table is as long as the code**, whatever is done to a chunk. -/
theorem size_lines_edit (h : chunk.lines.size = chunk.size) (e : Edit) :
    (chunk.edit e).lines.size = (chunk.edit e).size := by
  cases e with
  | byte byte line => simp [edit, Edit.apply, h]
  | opcode op line => simp [edit, Edit.apply, addOpcode, h]
  | instruction op operand line => simp [edit, Edit.apply, addInstruction, addOpcode, h]
  | constant value =>
    rcases chunk.addConstant_cases value with ⟨i, -, -, heq⟩ | ⟨-, -, heq⟩ | ⟨-, -, heq⟩ <;>
      simpa [edit, Edit.apply, heq, size] using h
  | jump op line => simp [edit, Edit.apply, addJump, addOpcode, h]
  | patch offset =>
    unfold edit Edit.apply
    split
    · next chunk' heq =>
      obtain ⟨-, -, rfl⟩ := of_patchJump heq
      rw [size_withDistance]
      exact h
    · exact h
  | loop start line =>
    unfold edit Edit.apply
    split
    · next chunk' heq =>
      obtain ⟨-, rfl⟩ := of_addLoop heq
      simp [withLoop, addOpcode, h]
    · exact h

/-- Edits keep a line for each byte. -/
theorem size_lines_edits (h : chunk.lines.size = chunk.size) (es : List Edit) :
    (chunk.edits es).lines.size = (chunk.edits es).size := by
  induction es generalizing chunk with
  | nil => exact h
  | cons e es ih => exact ih (size_lines_edit h e)

/-! ## Drafts -/

/-- A jump that was emitted and leads nowhere yet. -/
structure PendingJump where
  /-- Its opcode. -/
  op : Opcode
  /-- Its offset. -/
  offset : Nat

/-- A chunk with the jumps in it that are still to be patched. -/
structure Draft where
  /-- The chunk. -/
  chunk : Chunk
  /-- The jumps. -/
  pending : List PendingJump

namespace Draft

variable {d d' : Draft} {e : Edit} {i j : PendingJump}

/-- The draft behind an edit. -/
def next (d : Draft) : Edit → Draft
  | .jump op line => ⟨d.chunk.addJump op line, ⟨op, d.chunk.size⟩ :: d.pending⟩
  | .patch offset =>
    match d.chunk.patchJump offset with
    | .ok chunk => ⟨chunk, d.pending.filter (·.offset ≠ offset)⟩
    | .error _ => d
  | e => ⟨d.chunk.edit e, d.pending⟩

/-- Only jumps that are pending are patched. -/
def Allows (d : Draft) (e : Edit) : Prop :=
  ∀ offset, e = .patch offset → ∃ j ∈ d.pending, j.offset = offset

/-- The drafts that come of one by edits. -/
inductive Reaches (d : Draft) : Draft → Prop
  | refl : Reaches d d
  | next {d' : Draft} (h : Reaches d d') (e : Edit) (hallows : d'.Allows e) : Reaches d (d'.next e)

/-- A pending jump is one from before, or has just been emitted. -/
theorem mem_pending_next (hj : j ∈ (d.next e).pending) :
    j ∈ d.pending ∨ j.offset = d.chunk.size ∧ ∃ line, e = .jump j.op line := by
  cases e with
  | jump op line =>
    rcases List.mem_cons.1 hj with rfl | hj
    · exact .inr ⟨rfl, line, rfl⟩
    · exact .inl hj
  | patch offset =>
    unfold next at hj
    dsimp only at hj
    split at hj
    · exact .inl (List.mem_of_mem_filter hj)
    · exact .inl hj
  | _ => exact .inl hj

/-- An edit appends code, or none, or patches a pending jump. -/
theorem next_cases (hallows : d.Allows e) : d.chunk.Extends (d.next e).chunk ∨
    ∃ j ∈ d.pending, ∃ distance, (d.next e).chunk = d.chunk.withDistance j.offset distance := by
  cases e with
  | jump op line => exact .inl (extends_edit (e := .jump op line) (by simp))
  | patch offset =>
    obtain ⟨j, hj, rfl⟩ := hallows offset rfl
    unfold next
    dsimp only
    split
    · next chunk' heq =>
      obtain ⟨-, -, rfl⟩ := of_patchJump heq
      exact .inr ⟨j, hj, _, rfl⟩
    · exact .inl (.refl _)
  | _ => exact .inl (extends_edit (by simp))

theorem size_le_next (hallows : d.Allows e) : d.chunk.size ≤ (d.next e).chunk.size := by
  rcases next_cases hallows with hextends | ⟨j, -, distance, heq⟩
  · exact hextends.size_le
  · rw [heq, size_withDistance]

/-- A byte that no edit may change: it is there, and no operand of a pending jump. -/
def Fixes (d : Draft) (k : Nat) : Prop :=
  k < d.chunk.size ∧ ∀ j ∈ d.pending, k ≤ j.offset ∨ j.offset + 3 ≤ k

/-- A fixed byte stays as it is, and fixed. -/
theorem Fixes.next (hk : d.Fixes k) (hallows : d.Allows e) :
    (d.next e).Fixes k ∧ (d.next e).chunk.code[k]? = d.chunk.code[k]? := by
  obtain ⟨hlt, hpending⟩ := hk
  refine ⟨⟨Nat.lt_of_lt_of_le hlt (size_le_next hallows), fun j hj => ?_⟩, ?_⟩
  · rcases mem_pending_next hj with hj | ⟨hoffset, -⟩
    · exact hpending j hj
    · exact .inl (hoffset ▸ Nat.le_of_lt hlt)
  · rcases next_cases hallows with hextends | ⟨j, hj, distance, heq⟩
    · exact hextends.code_eq hlt
    · rw [heq]
      have hoperand := hpending j hj
      exact code_withDistance distance (by omega) (by omega)

/-- What is fixed stays fixed, with the byte that is there. -/
theorem Fixes.reaches (hk : d.Fixes k) (h : d.Reaches d') :
    d'.Fixes k ∧ d'.chunk.code[k]? = d.chunk.code[k]? := by
  induction h with
  | refl => exact ⟨hk, rfl⟩
  | next _ e hallows ih =>
    obtain ⟨hfixes, hcode⟩ := ih.1.next hallows
    exact ⟨hfixes, hcode.trans ih.2⟩

/-- The pending jumps stand in the code, each in its own place. -/
structure Sound (d : Draft) : Prop where
  /-- Their operands are there. -/
  within : ∀ j ∈ d.pending, j.offset + 3 ≤ d.chunk.size
  /-- They have their opcodes. -/
  opcode : ∀ j ∈ d.pending, d.chunk.code[j.offset]? = some j.op.toByte
  /-- None overlaps another. -/
  apart : ∀ i ∈ d.pending, ∀ j ∈ d.pending, i = j ∨ i.offset + 3 ≤ j.offset ∨
    j.offset + 3 ≤ i.offset

theorem sound_start (chunk : Chunk) : (⟨chunk, []⟩ : Draft).Sound where
  within := by simp
  opcode := by simp
  apart := by simp

namespace Sound

/-- The opcode of a pending jump is fixed. -/
theorem fixes (h : d.Sound) (hj : j ∈ d.pending) : d.Fixes j.offset := by
  have hwithin := h.within j hj
  refine ⟨by omega, fun i hi => ?_⟩
  rcases h.apart i hi j hj with rfl | hbefore | hbehind
  · exact .inl (Nat.le_refl _)
  · exact .inr hbefore
  · exact .inl (by omega)

/-- What an edit that is allowed makes of a sound draft is sound. -/
theorem next (h : d.Sound) (hallows : d.Allows e) : (d.next e).Sound where
  within j hj := by
    rcases mem_pending_next hj with hj | ⟨hoffset, line, rfl⟩
    · exact Nat.le_trans (h.within j hj) (size_le_next hallows)
    · rw [hoffset]
      exact Nat.le_of_eq (by simp [Draft.next, addJump, addOpcode])
  opcode j hj := by
    rcases mem_pending_next hj with hj | ⟨hoffset, line, rfl⟩
    · rw [((h.fixes hj).next hallows).2]
      exact h.opcode j hj
    · rw [hoffset, ← Array.getElem?_toList]
      simp [Draft.next, addJump, addOpcode, toList_addByte, size]
  apart i hi j hj := by
    rcases mem_pending_next hi with hi | ⟨hioffset, line, rfl⟩
    · rcases mem_pending_next hj with hj | ⟨hjoffset, -⟩
      · exact h.apart i hi j hj
      · exact .inr (.inl (hjoffset ▸ h.within i hi))
    · rcases mem_pending_next hj with hj | ⟨hjoffset, line', heq⟩
      · exact .inr (.inr (hioffset ▸ h.within j hj))
      · injection heq with hop
        obtain ⟨op, offset⟩ := i
        obtain ⟨op', offset'⟩ := j
        exact .inl (PendingJump.mk.injEq .. ▸ ⟨hop, hioffset.trans hjoffset.symm⟩)

theorem reaches (h : d.Sound) (hreaches : d.Reaches d') : d'.Sound := by
  induction hreaches with
  | refl => exact h
  | next _ e hallows ih => exact ih.next hallows

/-- Once a jump is patched its bytes are fixed. -/
theorem fixes_patched (h : d.Sound) (hj : j ∈ d.pending) {distance : Nat} (hlow : j.offset ≤ k)
    (hhigh : k < j.offset + 3) :
    (⟨d.chunk.withDistance j.offset distance, d.pending.filter (·.offset ≠ j.offset)⟩ :
      Draft).Fixes k := by
  have hwithin := h.within j hj
  refine ⟨by rw [size_withDistance]; omega, fun i hi => ?_⟩
  obtain ⟨hmem, hother⟩ := List.mem_filter.1 hi
  rcases h.apart i hmem j hj with rfl | hbefore | hbehind
  · simp at hother
  · exact .inr (by omega)
  · exact .inl (by omega)

/-- What is appended is fixed. -/
theorem fixes_appended (h : d.Sound) {chunk : Chunk} (hlow : d.chunk.size ≤ k)
    (hhigh : k < chunk.size) :
    (⟨chunk, d.pending⟩ : Draft).Fixes k :=
  ⟨hhigh, fun j hj => .inr (Nat.le_trans (h.within j hj) hlow)⟩

end Sound

end Draft

/-! ## Landing -/

/-- The machine that takes the jump at an offset of a chunk lands on a target, and nothing else
changes. -/
def Lands (chunk : Chunk) (op : Opcode) (offset target : Nat) : Prop :=
  ∀ (m : Machine) (f : Frame) (rest : List Frame), m.calls = f :: rest →
    Exec.chunkOf m f = chunk → f.ip = offset → m.Jumps op →
    Exec.step m = .ok none (m.moveTo target)

section

open Exec

variable {m : Machine} {f : Frame} {rest : List Frame} {distance : Nat}

/-- The machine reads the distance that stands in the code. -/
theorem readShort_of_short? (hcalls : m.calls = f :: rest)
    (hshort : (chunkOf m f).short? k = some distance) :
    readShort (m.moveTo k) = .ok distance (m.moveTo (k + 2)) := by
  simp only [short?, Option.bind_eq_bind, Option.bind_eq_some_iff] at hshort
  obtain ⟨high, hhigh, low, hlow, heq⟩ := hshort
  obtain rfl := Option.some.inj heq
  exact readShort_eq hcalls hhigh hlow

/-- A jump lands at its distance behind its end. -/
theorem lands_jump (hop : chunk.opcodeAt? offset = some .jump)
    (hshort : chunk.short? (offset + 1) = some distance) :
    chunk.Lands .jump offset (offset + 3 + distance) := by
  rintro m f rest hcalls rfl rfl -
  rw [step_of_opcodeAt? hcalls hop]
  exact bind_of_ok (jump_eq hcalls (readShort_of_short? hcalls hshort))

/-- A conditional jump lands at its distance behind its end. -/
theorem lands_jumpIfFalse (hop : chunk.opcodeAt? offset = some .jumpIfFalse)
    (hshort : chunk.short? (offset + 1) = some distance) :
    chunk.Lands .jumpIfFalse offset (offset + 3 + distance) := by
  rintro m f rest hcalls rfl rfl ⟨value, hvalue, hfalsey⟩
  have hpeek : peek 0 (m.moveTo (f.ip + 3)) = .ok value (m.moveTo (f.ip + 3)) :=
    peek_eq (List.head?_eq_getElem?.symm.trans hvalue)
  have hjump := jumpIfFalse_eq hcalls (readShort_of_short? hcalls hshort) hpeek
  rw [if_pos hfalsey] at hjump
  rw [step_of_opcodeAt? hcalls hop]
  exact bind_of_ok hjump

/-- A jump back lands at its distance in front of its end. -/
theorem lands_loop (hop : chunk.opcodeAt? offset = some .loop)
    (hshort : chunk.short? (offset + 1) = some distance) (hle : distance ≤ offset + 3) :
    chunk.Lands .loop offset (offset + 3 - distance) := by
  rintro m f rest hcalls rfl rfl -
  rw [step_of_opcodeAt? hcalls hop]
  exact bind_of_ok (loop_eq hcalls (readShort_of_short? hcalls hshort) hle)

end

/-! ## Exactness -/

namespace Draft

variable {d : Draft} {j : PendingJump}

/-- How a pending jump is patched. -/
structure Patches (d : Draft) (j : PendingJump) : Prop where
  /-- The jump stands in front of the end of the code. -/
  within : j.offset + 3 ≤ d.chunk.size
  /-- It can be patched just if that is near enough. -/
  succeeds_iff : (∃ chunk', d.chunk.patchJump j.offset = .ok chunk') ↔
    d.chunk.size - (j.offset + 3) ≤ 65535
  /-- Nothing but its operands changes. -/
  changes : ∀ {chunk'}, d.chunk.patchJump j.offset = .ok chunk' →
    chunk'.name = d.chunk.name ∧ chunk'.lines = d.chunk.lines ∧
    chunk'.constants = d.chunk.constants ∧ chunk'.size = d.chunk.size ∧
    ∀ k, k ≠ j.offset + 1 → k ≠ j.offset + 2 → chunk'.code[k]? = d.chunk.code[k]?
  /-- The machine that takes the jump lands where the code ended, whatever is done to the chunk
  afterwards. -/
  lands : ∀ {chunk' later}, d.chunk.patchJump j.offset = .ok chunk' →
    (d.next (.patch j.offset)).Reaches later → j.op = .jump ∨ j.op = .jumpIfFalse →
    later.chunk.Lands j.op j.offset d.chunk.size
  /-- If it cannot be patched, nothing changes in the chunk, nor in a program under construction. -/
  fails : ¬d.chunk.size - (j.offset + 3) ≤ 65535 →
    d.chunk.edit (.patch j.offset) = d.chunk ∧
    ∀ b : Builder, b.chunk = d.chunk → ∃ complaint, Build.patchJump j.offset b = .error complaint b

/-- How a jump back is appended. -/
structure Loops (d : Draft) (start line : Nat) : Prop where
  /-- It can be appended just if the start is near enough. -/
  succeeds_iff : (∃ chunk', d.chunk.addLoop start line = .ok chunk') ↔
    d.chunk.size + 3 - start ≤ 65535
  /-- Three bytes are appended, and nothing else changes. -/
  appends : ∀ {chunk'}, d.chunk.addLoop start line = .ok chunk' →
    chunk'.name = d.chunk.name ∧ chunk'.constants = d.chunk.constants ∧
    chunk'.lines.toList = d.chunk.lines.toList ++ [line, line, line] ∧
    ∃ high low, chunk'.code.toList = d.chunk.code.toList ++ [Opcode.loop.toByte, high, low]
  /-- The machine that takes the jump lands at the start, whatever is done to the chunk
  afterwards. -/
  lands : ∀ {chunk' later}, d.chunk.addLoop start line = .ok chunk' →
    (d.next (.loop start line)).Reaches later → later.chunk.Lands .loop d.chunk.size start
  /-- If it cannot be appended, nothing changes in the chunk, nor in a program under
  construction. -/
  fails : ¬d.chunk.size + 3 - start ≤ 65535 →
    d.chunk.edit (.loop start line) = d.chunk ∧
    ∀ b : Builder, b.chunk = d.chunk → ∃ complaint, Build.emitLoop start line b = .error complaint b

/-- A jump that is patched is pending no longer. -/
theorem next_patch {chunk' : Chunk} (h : d.chunk.patchJump j.offset = .ok chunk') :
    d.next (.patch j.offset) = ⟨chunk', d.pending.filter (·.offset ≠ j.offset)⟩ := by
  unfold next
  dsimp only
  rw [h]

/-- A jump back that fits is appended, and no jump stops pending. -/
theorem next_loop {chunk' : Chunk} {start line : Nat}
    (h : d.chunk.addLoop start line = .ok chunk') :
    d.next (.loop start line) = ⟨chunk', d.pending⟩ := by
  unfold next edit Edit.apply
  dsimp only
  rw [h]

/-- The opcode and the distance at an offset stay if their bytes are fixed. -/
theorem reaches_jump {later : Draft} {op : Opcode} {offset distance : Nat} (h : d.Reaches later)
    (hfixes : ∀ k, offset ≤ k → k < offset + 3 → d.Fixes k)
    (hop : d.chunk.code[offset]? = some op.toByte)
    (hshort : d.chunk.short? (offset + 1) = some distance) :
    later.chunk.opcodeAt? offset = some op ∧ later.chunk.short? (offset + 1) = some distance := by
  have hsame : ∀ k, offset ≤ k → k < offset + 3 → later.chunk.code[k]? = d.chunk.code[k]? :=
    fun k hlow hhigh => ((hfixes k hlow hhigh).reaches h).2
  constructor
  · rw [opcodeAt?, hsame offset (Nat.le_refl _) (by omega), hop]
    exact Opcode.ofByte?_toByte op
  · rw [short?, hsame (offset + 1) (by omega) (by omega),
      hsame (offset + 1 + 1) (by omega) (by omega)]
    exact hshort

/-- Each pending jump of a sound draft is patched as it should be. -/
theorem Sound.patches (h : d.Sound) (hj : j ∈ d.pending) : d.Patches j where
  within := h.within j hj
  succeeds_iff :=
    ⟨fun ⟨_, hpatch⟩ => (of_patchJump hpatch).2.1, fun hfits =>
      ⟨_, patchJump_of_le (h.within j hj) hfits⟩⟩
  changes hpatch := by
    obtain ⟨-, -, rfl⟩ := of_patchJump hpatch
    exact ⟨rfl, rfl, rfl, size_withDistance .., fun k => code_withDistance _⟩
  lands := by
    intro chunk' later hpatch hreaches hforward
    obtain ⟨hwithin, hfits, rfl⟩ := of_patchJump hpatch
    rw [next_patch hpatch] at hreaches
    obtain ⟨hop, hshort⟩ := reaches_jump hreaches (fun k => h.fixes_patched hj)
      ((code_withDistance _ (by omega) (by omega)).trans (h.opcode j hj))
      (short?_withDistance hwithin hfits)
    have htarget : j.offset + 3 + (d.chunk.size - (j.offset + 3)) = d.chunk.size := by omega
    obtain ⟨op, offset⟩ := j
    rcases hforward with rfl | rfl
    · exact htarget ▸ lands_jump hop hshort
    · exact htarget ▸ lands_jumpIfFalse hop hshort
  fails hfar := by
    have hpatch := patchJump_of_gt (h.within j hj) hfar
    refine ⟨by rw [edit, Edit.apply, hpatch], fun b hb => ?_⟩
    have heq : Build.patchJump j.offset b = Build.setChunk (b.chunk.patchJump j.offset) b := rfl
    rw [heq, hb, hpatch]
    exact ⟨_, rfl⟩

/-- Each jump back of a sound draft is appended as it should be. -/
theorem Sound.loops (h : d.Sound) {start : Nat} (hstart : start ≤ d.chunk.size) (line : Nat) :
    d.Loops start line where
  succeeds_iff := ⟨fun ⟨_, hloop⟩ => (of_addLoop hloop).1, fun hfits =>
    ⟨_, addLoop_of_le hstart hfits⟩⟩
  appends hloop := by
    obtain ⟨-, rfl⟩ := of_addLoop hloop
    refine ⟨rfl, rfl, ?_, ⟨_, _, toList_withLoop d.chunk _ line⟩⟩
    simp [withLoop, addOpcode, addByte]
  lands := by
    intro chunk' later hloop hreaches
    obtain ⟨hfits, rfl⟩ := of_addLoop hloop
    rw [next_loop hloop] at hreaches
    obtain ⟨hop, hshort⟩ := reaches_jump hreaches
      (fun k hlow hhigh => h.fixes_appended hlow (by rw [size_withLoop]; exact hhigh))
      (code_withLoop (k := 0)) (short?_withLoop hfits)
    have htarget : d.chunk.size + 3 - (d.chunk.size + 3 - start) = start := by omega
    exact htarget ▸ lands_loop hop hshort (by omega)
  fails hfar := by
    have hloop : d.chunk.addLoop start line = .error .loopTooLong := addLoop_of_gt hfar
    refine ⟨by rw [edit, Edit.apply, hloop], fun b hb => ?_⟩
    have heq : Build.emitLoop start line b = Build.setChunk (b.chunk.addLoop start line) b := rfl
    rw [heq, hb, hloop]
    exact ⟨_, rfl⟩

end Draft

/-- **Jumps are patched exactly, and failures change nothing.**  In whatever draft comes of a chunk
by edits each pending jump can be patched, and a loop be appended, just if the distance fits into
two bytes; only the operands change or only three bytes are appended, and the machine lands on the
end of the code or on the start.  After any edits there are as many lines as code bytes. -/
theorem patching :
    (∀ {start : Chunk} {d : Draft}, Draft.Reaches ⟨start, []⟩ d →
      (∀ j ∈ d.pending, d.Patches j) ∧
      ∀ loopStart line, loopStart ≤ d.chunk.size → d.Loops loopStart line) ∧
    ∀ (name : String) (es : List Edit),
      ((empty name).edits es).lines.size = ((empty name).edits es).size := by
  refine ⟨fun {start d} hreaches => ?_, fun name es => size_lines_edits rfl es⟩
  have hsound : d.Sound := (Draft.sound_start start).reaches hreaches
  exact ⟨fun j hj => hsound.patches hj, fun loopStart line hstart => hsound.loops hstart line⟩

/-- The outer one of two jumps is patched before the inner one. -/
theorem patching_interleaved :
    let d := ((((⟨empty "main", []⟩ : Draft).next (.jump .jumpIfFalse 1)).next
      (.opcode .pop 1)).next
      (.jump .jump 2)).next (.patch 0)
    Draft.Reaches ⟨empty "main", []⟩ d ∧ d.Patches ⟨.jump, 4⟩ ∧ 4 ≤ d.chunk.size ∧ d.Loops 4 3 := by
  intro d
  have hplain : ∀ {d : Draft} {e : Edit}, (∀ offset, e ≠ .patch offset) → d.Allows e :=
    fun h offset heq => absurd heq (h offset)
  have hreaches : Draft.Reaches ⟨empty "main", []⟩ d := by
    refine .next (.next (.next (.next .refl _ (hplain (by simp))) _ (hplain (by simp))) _
      (hplain (by simp))) _ fun offset heq => ?_
    cases heq
    exact ⟨⟨.jumpIfFalse, 0⟩, List.mem_cons_of_mem _ List.mem_cons_self, rfl⟩
  have hsize : 4 ≤ d.chunk.size := by decide
  obtain ⟨hpatches, hloops⟩ := patching.1 hreaches
  exact ⟨hreaches, hpatches ⟨.jump, 4⟩ List.mem_cons_self, hsize, hloops 4 3 hsize⟩

end Chunk

end ScriptVM
