/-
# Machine, decoder and listing agree

Three places know how long an instruction is: the machine reads its operands, the decoder adds up
the lengths that opcodes have, and a listing prints one entry an instruction.  On any chunk whatever
they agree (`Chunk.Agreement`): a call that does an instruction comes to stand where the decoder
says that the next one starts, a jump leads to the offset that its listing names, and the entries of
a listing are those of the decoded instructions.

An instruction may have to run code of the program before it is complete; the call stands still
behind the instruction while it does (`Machine.Performing`).
-/
import ScriptVM.Chunk.Listing
import ScriptVM.Proofs.Machine.Pointer

namespace ScriptVM

/-! ## Jumps in listings -/

namespace Chunk

variable {heap : Heap} {chunk : Chunk} {offset distance : Nat} {op : Opcode}

/-- How the listing of a jump names its target. -/
def targetText (op : Opcode) (offset target : Nat) : String :=
  s!"{op.name} {offset} -> {target}"

/-- A jump names the offset that its distance leads to. -/
theorem jumpText_eq {sign : Int} {target : Nat} (hshort : chunk.short? (offset + 1) = some distance)
    (htarget : (offset : Int) + 3 + sign * distance = target) :
    chunk.jumpText offset sign = s!"{offset} -> {target}" := by
  rw [jumpText, hshort]
  dsimp only
  rw [htarget]
  rfl

/-- The text of an instruction is its name and that of its operands. -/
theorem instructionText_of_opcodeAt? (hop : chunk.opcodeAt? offset = some op) :
    chunk.instructionText heap offset
      = op.name ++ (chunk.operandText heap offset op.operands).elim "" (" " ++ ·) := by
  rw [instructionText, hop]
  dsimp only
  cases chunk.operandText heap offset op.operands with
  | none => exact (String.append_empty ..).symm
  | some operands => exact String.append_assoc ..

/-- The text of an instruction whose operands name a target. -/
theorem instructionText_eq_targetText {target : Nat} (hop : chunk.opcodeAt? offset = some op)
    (htext : chunk.operandText heap offset op.operands = some s!"{offset} -> {target}") :
    chunk.instructionText heap offset = targetText op offset target := by
  rw [instructionText_of_opcodeAt? hop, htext]
  simp only [targetText, Option.elim, String.append_assoc]
  rfl

/-- A jump ahead names the offset at which it lands. -/
theorem instructionText_forward (hop : chunk.opcodeAt? offset = some op)
    (hforward : op.operands = .forward) (hshort : chunk.short? (offset + 1) = some distance) :
    chunk.instructionText heap offset = targetText op offset (offset + 3 + distance) := by
  refine instructionText_eq_targetText hop ?_
  rw [hforward, operandText]
  exact congrArg some (jumpText_eq hshort (by omega))

/-- A jump back names the offset at which it lands. -/
theorem instructionText_backward (hop : chunk.opcodeAt? offset = some op)
    (hbackward : op.operands = .backward) (hshort : chunk.short? (offset + 1) = some distance)
    (hle : distance ≤ offset + 3) :
    chunk.instructionText heap offset = targetText op offset (offset + 3 - distance) := by
  refine instructionText_eq_targetText hop ?_
  rw [hbackward, operandText]
  exact congrArg some (jumpText_eq hshort (by omega))

/-! ## Entries of listings -/

/-- What a listing says about an instruction: its offset, its line unless it is that of the
instruction before, its name and its operands. -/
def entryText (heap : Heap) (chunk : Chunk) (previous : Option Nat) (offset : Nat) (op : Opcode) :
    String :=
  let operands := (chunk.operandText heap offset op.operands).elim "" (" " ++ ·)
  offsetText offset ++ lineText previous (chunk.lines.getD offset 0) ++
    (op.name ++ operands) ++ "\n"

/-- The entries of some instructions, given the line of the one in front of them. -/
def entries (heap : Heap) (chunk : Chunk) : Option Nat → List (Nat × Opcode) → List String
  | _, [] => []
  | previous, (offset, op) :: rest =>
    chunk.entryText heap previous offset op ::
      entries heap chunk (some (chunk.lines.getD offset 0)) rest

/-- The number of bytes that some instructions take. -/
def extentOf (heap : Heap) (chunk : Chunk) (instructions : List (Nat × Opcode)) : Nat :=
  instructions.foldr (fun i length => (chunk.instructionLength? heap i.1).getD 0 + length) 0

/-- The instructions of a chunk reach to the end of its code, so no byte stops the decoder. -/
def DecodesToEnd (heap : Heap) (chunk : Chunk) : Prop :=
  chunk.size ≤ chunk.extentOf heap (chunk.instructions heap)

/-- Where the decoder reaches the end, a listing has the entries of the decoded instructions. -/
theorem listingFrom_eq_entries (bound : Nat) (previous : Option Nat)
    (h : chunk.size ≤ offset + chunk.extentOf heap (chunk.instructionsFrom heap bound offset)) :
    chunk.listingFrom heap bound previous offset
      = chunk.entries heap previous (chunk.instructionsFrom heap bound offset) := by
  induction bound generalizing previous offset with
  | zero => rfl
  | succ bound ih =>
    rw [listingFrom]
    rw [instructionsFrom] at h ⊢
    by_cases hlt : offset < chunk.size
    · rw [if_pos hlt]
      split at h
      · next op length hop hlength =>
        rw [extentOf, List.foldr_cons, hlength] at h
        rw [hlength, instructionText_of_opcodeAt? hop, entries, entryText]
        refine congrArg _ (ih _ ?_)
        rw [extentOf]
        simp only [Option.getD_some] at h ⊢
        omega
      · simp [extentOf] at h
        omega
    · have hcode : chunk.code[offset]? = none := Array.getElem?_eq_none (Nat.le_of_not_lt hlt)
      rw [if_neg hlt, opcodeAt?, hcode]
      rfl

/-- The listing of the code of a chunk is its name and the entries of the decoded instructions. -/
theorem ownListing_eq_entries (h : chunk.DecodesToEnd heap) : chunk.ownListing heap
    = s!"== {chunk.name} ==\n" ++
        String.join (chunk.entries heap none (chunk.instructions heap)) := by
  rw [ownListing, listingFrom_eq_entries chunk.size none (by rw [Nat.zero_add]; exact h)]
  rfl

/-- A listing starts with that of the chunk's own code. -/
theorem exists_listing_eq (heap : Heap) (chunk : Chunk) :
    ∃ inner, chunk.listing heap = chunk.ownListing heap ++ inner := by
  rw [listing]
  cases heap.functions.size with
  | zero => exact ⟨"", by simp [listingToDepth]⟩
  | succ depth => exact ⟨_, rfl⟩

end Chunk

/-! ## Instructions that are being done -/

namespace Machine

variable {m m' : Machine} {f : Frame} {rest : List Frame} {op : Opcode}

/-- The machine is doing the instruction that another machine is about to do, or has just done it:
it has read the operands and may run what the instruction calls. -/
inductive Performing (m : Machine) : Machine → Prop
  /-- The instruction has been started. -/
  | start {m' : Machine} (h : Exec.step m = .ok none m') : Performing m m'
  /-- A call above those that there were goes on. -/
  | step {m₁ m' : Machine} (h : Performing m m₁) (habove : m.frames.size < m₁.frames.size)
      (hstep : Exec.step m₁ = .ok none m') : Performing m m'
  /-- Time goes by, and what is written is taken away. -/
  | pause {m₁ : Machine} (h : Performing m m₁) (sink : Sink) (now : Float) :
      Performing m { m₁ with sink, now }

/-- The next instruction jumps if it has this opcode. -/
def Jumps (m : Machine) : Opcode → Prop
  | .jump | .loop => True
  | .jumpIfFalse => ∃ value, m.values.head? = some value ∧ value.isFalsey
  | _ => False

/-- What holds of the calls after one instruction holds until the calls above them have been
left. -/
theorem Performing.exists_above (h : m.Performing m') {below : List Frame}
    (hlength : below.length = m.frames.size)
    (hstart : ∀ {m₁ : Machine}, Exec.step m = .ok none m₁ → ∃ above, m₁.calls = above ++ below) :
    ∃ above, m'.calls = above ++ below := by
  induction h with
  | start hstep => exact hstart hstep
  | @step m₁ m' _ habove hstep ih =>
    obtain ⟨above, hcalls⟩ := ih
    refine exists_above_of_step hcalls ?_ hstep
    rintro rfl
    have hsize : m₁.frames.size = below.length := by
      rw [← Stack.length_down, show m₁.frames.down = below from hcalls]
    omega
  | pause _ sink now ih => exact ih

theorem size_frames (hcalls : m.calls = f :: rest) (ip : Nat) :
    ({ f with ip } :: rest : List Frame).length = m.frames.size := by
  rw [← Stack.length_down, show m.frames.down = f :: rest from hcalls]
  rfl

/-- **A call passes an instruction** that neither jumps nor returns. -/
theorem Performing.passes (h : m.Performing m') (hcalls : m.calls = f :: rest)
    (hop : (Exec.chunkOf m f).opcodeAt? f.ip = some op) (hret : op ≠ .ret) (hjumps : ¬m.Jumps op) :
    ∃ length above, (Exec.chunkOf m f).instructionLength? m.heap f.ip = some length ∧
      m'.calls = above ++ { f with ip := f.ip + length } :: rest := by
  have hfirst : ∀ {m₁ : Machine}, Exec.step m = .ok none m₁ →
      ∃ length above, (Exec.chunkOf m f).instructionLength? m.heap f.ip = some length ∧
        m₁.calls = above ++ { f with ip := f.ip + length } :: rest := by
    intro m₁ hstep
    have hbreaks := Exec.not_breaks_of_ok hstep
    by_cases hbranch : op = .jumpIfFalse
    · subst hbranch
      obtain ⟨distance, value, -, hvalue, heq⟩ := Exec.step_jumpIfFalse hcalls hop hbreaks
      have hfalsey : ¬value.isFalsey := fun htrue => hjumps ⟨value, hvalue, htrue⟩
      rw [if_neg hfalsey, hstep] at heq
      injection heq with _ hm₁
      refine ⟨3, [], ?_, hm₁ ▸ calls_moveTo hcalls _⟩
      simp [Chunk.instructionLength?, hop, Opcode.operandLength, Opcode.operands]
    · obtain ⟨length, above, hlength, -, hafter⟩ := Exec.step_advances hcalls hop (by
        cases op <;> simp_all [Jumps]) hbreaks
      rw [Exec.after_of_ok hstep] at hafter
      exact ⟨length, above, hlength, hafter⟩
  obtain ⟨m₁, hstep⟩ : ∃ m₁, Exec.step m = .ok none m₁ := by
    induction h with
    | start hstep => exact ⟨_, hstep⟩
    | step _ _ _ ih => exact ih
    | pause _ _ _ ih => exact ih
  obtain ⟨length, _, hlength, -⟩ := hfirst hstep
  obtain ⟨above, hafter⟩ := h.exists_above (size_frames hcalls (f.ip + length)) fun hstep' => by
    obtain ⟨length', above, hlength', hcalls'⟩ := hfirst hstep'
    obtain rfl := Option.some.inj (hlength.symm.trans hlength')
    exact ⟨above, hcalls'⟩
  exact ⟨length, above, hlength, hafter⟩

/-- **A call jumps** to the target that the listing of its instruction names. -/
theorem jumps_to_target (hcalls : m.calls = f :: rest)
    (hop : (Exec.chunkOf m f).opcodeAt? f.ip = some op) (hjumps : m.Jumps op)
    (hstep : Exec.step m = .ok none m') : ∃ target,
      (Exec.chunkOf m f).instructionText m.heap f.ip = Chunk.targetText op f.ip target ∧
      m'.calls = { f with ip := target } :: rest := by
  have hbreaks := Exec.not_breaks_of_ok hstep
  have hmoved : ∀ {ip : Nat}, Exec.step m = .ok none (m.moveTo ip) →
      m'.calls = { f with ip } :: rest := by
    intro ip heq
    rw [hstep] at heq
    injection heq with _ hm'
    exact hm' ▸ calls_moveTo hcalls ip
  cases op with
  | jump =>
    obtain ⟨distance, hshort, heq⟩ := Exec.step_jump hcalls hop hbreaks
    exact ⟨_, Chunk.instructionText_forward hop rfl hshort, hmoved heq⟩
  | jumpIfFalse =>
    obtain ⟨distance, value, hshort, hvalue, heq⟩ := Exec.step_jumpIfFalse hcalls hop hbreaks
    obtain ⟨value', hvalue', hfalsey⟩ := hjumps
    obtain rfl := Option.some.inj (hvalue.symm.trans hvalue')
    rw [if_pos hfalsey] at heq
    exact ⟨_, Chunk.instructionText_forward hop rfl hshort, hmoved heq⟩
  | loop =>
    obtain ⟨distance, hshort, hle, heq⟩ := Exec.step_loop hcalls hop hbreaks
    exact ⟨_, Chunk.instructionText_backward hop rfl hshort hle, hmoved heq⟩
  | _ => exact hjumps.elim

end Machine

/-! ## Agreement -/

/-- What the machine, the decoder and the listing of a chunk agree on. -/
structure Chunk.Agreement (heap : Heap) (chunk : Chunk) : Prop where
  /-- A call that does an instruction and neither jumps nor returns comes to stand where the decoder
  finds the next instruction. -/
  passes : ∀ {m m' : Machine} {f : Frame} {rest : List Frame} {op : Opcode}, m.heap = heap →
    m.calls = f :: rest → Exec.chunkOf m f = chunk → chunk.opcodeAt? f.ip = some op → op ≠ .ret →
    ¬m.Jumps op → m.Performing m' → ∃ length above,
      chunk.instructionLength? heap f.ip = some length ∧
      m'.calls = above ++ { f with ip := f.ip + length } :: rest
  /-- A call that jumps comes to stand at the target in the listing. -/
  jumps : ∀ {m m' : Machine} {f : Frame} {rest : List Frame} {op : Opcode}, m.heap = heap →
    m.calls = f :: rest → Exec.chunkOf m f = chunk → chunk.opcodeAt? f.ip = some op → m.Jumps op →
    Exec.step m = .ok none m' → ∃ target,
      chunk.instructionText heap f.ip = targetText op f.ip target ∧
      m'.calls = { f with ip := target } :: rest
  /-- If the decoder reaches the end, the listing has the entries of the decoded instructions in
  front of the listings of the functions among the constants. -/
  lists : chunk.DecodesToEnd heap → ∃ inner, chunk.listing heap =
    s!"== {chunk.name} ==\n" ++ String.join (chunk.entries heap none (chunk.instructions heap)) ++
      inner

/-- **Machine, decoder and listing agree** on every instruction of every chunk. -/
theorem Chunk.agreement (heap : Heap) (chunk : Chunk) : chunk.Agreement heap where
  passes := by
    rintro m m' f rest op rfl hcalls rfl hop hret hjumps h
    exact h.passes hcalls hop hret hjumps
  jumps := by
    rintro m m' f rest op rfl hcalls rfl hop hjumps hstep
    exact Machine.jumps_to_target hcalls hop hjumps hstep
  lists h := by
    obtain ⟨inner, hlisting⟩ := chunk.exists_listing_eq heap
    exact ⟨inner, by rw [hlisting, ownListing_eq_entries h]⟩

end ScriptVM
