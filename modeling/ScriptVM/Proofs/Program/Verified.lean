/-
# Verified code

What a verifier of code checks, in terms of bytes alone: the instructions cover the code without
gaps, every operand is in range and of the right kind, every jump leads to an instruction, and the
number of values on the stack depends on the place in the code only.

Main statement: `verified_of_reachable`, every function of a compiled source passes.
-/
import ScriptVM.Proofs.Chunk.Decoded
import ScriptVM.Proofs.Program.Compiled

namespace ScriptVM

/-! ## The verifier -/

namespace Opcode

/-- The number of values that an instruction takes from the stack. -/
def takes : Opcode → List UInt8 → Nat
  | .call, [count] | .invoke, [_, count] => count.toNat + 1
  | .invokeSuper, [_, count] => count.toNat + 2
  | .arrayLiteral, [count] => count.toNat
  | .ret, _ | .negate, _ | .not, _ | .print, _ | .pop, _ | .closeUpvalue, _ | .defineGlobal, _
  | .setGlobal, _ | .setLocal, _ | .setUpvalue, _ | .jumpIfFalse, _ | .getProperty, _ => 1
  | .add, _ | .subtract, _ | .multiply, _ | .divide, _ | .equal, _ | .notEqual, _ | .less, _
  | .greater, _ | .setProperty, _ | .method, _ | .computedProperty, _ | .inherit, _
  | .getSuper, _ => 2
  | _, _ => 0

/-- The number of values that an instruction leaves on the stack for those that it takes. -/
def leaves : Opcode → Nat
  | .ret | .print | .pop | .closeUpvalue | .defineGlobal | .jump | .loop | .uninitialized => 0
  | _ => 1

/-- The offsets at which the code goes on after an instruction that ends at an offset. -/
def targets : Opcode → List UInt8 → Nat → List Nat
  | .ret, _, _ => []
  | .jump, [high, low], next => [next + distanceOf high low]
  | .jumpIfFalse, [high, low], next => [next, next + distanceOf high low]
  | .loop, [high, low], next => [next - distanceOf high low]
  | _, _, next => [next]

end Opcode

namespace Function

/-- The operands of an instruction are in range and of the right kind, where the stack has a
height.  A closure may capture the slot that it is about to take itself. -/
def Admits (heap : Heap) (f : Function) (height : Nat) : Opcode → List UInt8 → Prop
  | .uninitialized, _ => False
  | .constant, [c] => ∃ v, f.chunk.constant? c = some v ∧ v.isLiteral = true
  | .defineGlobal, [c] | .getGlobal, [c] | .setGlobal, [c] | .newClass, [c] | .getProperty, [c]
  | .setProperty, [c] | .method, [c] | .computedProperty, [c] | .getSuper, [c] | .invoke, [c, _]
  | .invokeSuper, [c, _] => ∃ name, f.chunk.constant? c = some (.string name)
  | .getLocal, [i] | .setLocal, [i] => i.toNat < height
  | .getUpvalue, [i] | .setUpvalue, [i] => i.toNat < f.captureCount
  | .closure, c :: pairs => ∃ id captures, f.chunk.constant? c = some (.functionRef id) ∧
      id.index < heap.functions.size ∧ pairs = captureBytes captures ∧
      captures.length = (heap.function id).captureCount ∧
      ∀ capture ∈ captures, capture.index.toNat < if capture.isLocal then height + 1
        else f.captureCount
  | .call, [_] | .arrayLiteral, [_] | .jump, [_, _] | .jumpIfFalse, [_, _] | .loop, [_, _] => True
  | op, [] => op.operandLength = 0
  | _, _ => False

/-- What is checked of an instruction at an offset, with the height of the stack at each offset. -/
structure Checks (heap : Heap) (f : Function) (height : Nat → Nat) (offset : Nat) (op : Opcode)
    (operands : List UInt8) : Prop where
  /-- The operand bytes follow the opcode. -/
  bytes : ∀ k, k < operands.length → f.chunk.code[offset + 1 + k]? = operands[k]?
  /-- The length is counted from the bytes. -/
  length : f.chunk.instructionLength? heap offset = some (1 + operands.length)
  /-- All bytes are on one line. -/
  line : ∃ line, ∀ k ≤ operands.length, f.chunk.lineAt? (offset + k) = some line
  /-- The operands are in range and of the right kind. -/
  admits : f.Admits heap (height offset) op operands
  /-- The values to be taken stand above slot zero. -/
  room : op.takes operands < height offset
  /-- A jump back does not leave the code. -/
  back : ∀ high low, op = .loop → operands = [high, low] →
    distanceOf high low ≤ offset + 1 + operands.length
  /-- The code goes on with an instruction. -/
  start : ∀ target ∈ op.targets operands (offset + 1 + operands.length),
    ∃ op', (target, op') ∈ f.chunk.instructions heap
  /-- The heights are those that the instruction leaves. -/
  next : ∀ target ∈ op.targets operands (offset + 1 + operands.length),
    height target = height offset - op.takes operands + op.leaves

/-- The instructions of a list cover the code from an offset on: each starts where the one before
it ends. -/
def Covered (heap : Heap) (f : Function) : Nat → List (Nat × Opcode) → Prop
  | offset, [] => offset = f.chunk.size
  | offset, (start, op) :: rest => start = offset ∧ f.chunk.opcodeAt? offset = some op ∧
      ∃ length, f.chunk.instructionLength? heap offset = some length ∧
        Covered heap f (offset + length) rest

/-- A function passes the verifier. -/
structure Verified (heap : Heap) (f : Function) : Prop where
  /-- The instructions cover the code. -/
  covered : f.Covered heap 0 (f.chunk.instructions heap)
  /-- The last instruction leaves the call. -/
  last : ∃ offset, (f.chunk.instructions heap).getLast? = some (offset, .ret)
  /-- There is one height of the stack at each instruction, with the callee and the arguments at
  the start. -/
  heights : ∃ height : Nat → Nat, height 0 = f.arity.toNat + 1 ∧
    ∀ offset op, (offset, op) ∈ f.chunk.instructions heap →
      ∃ operands, f.Checks heap height offset op operands

end Function

/-! ## Single instructions -/

/-- The function of a table with a blueprint. -/
theorem TableFits.function (heap : Heap) {bps : List Blueprint} {id : FunctionId} {bp : Blueprint}
    (h : TableFits bps heap.functions.toList) (hbp : bps[id.index]? = some bp) :
    id.index < heap.functions.size ∧ (heap.function id).Fits bps bp := by
  obtain ⟨hlt, rfl⟩ := List.getElem?_eq_some_iff.1 hbp
  have hlt' : id.index < heap.functions.size := by
    rw [← Array.length_toList, h.length_eq]
    exact hlt
  refine ⟨hlt', ?_⟩
  have hfits := h.get hlt' hlt
  rw [Heap.function, Array.getD_eq_getD_getElem?, Array.getElem?_eq_getElem hlt', Option.getD_some]
  exact hfits

section

variable {heap : Heap} {f : Function} {bps : List Blueprint} {captures : List SlotKind}
  {initializes : Bool} {receiver : Slot} {op : Opcode} {operands : List UInt8} {p q : Point}

theorem Opcode.mem_pushes : op ∈ pushes ↔ op = .pushNil ∨ op = .pushTrue ∨ op = .pushFalse := by
  simp [pushes]

theorem Opcode.mem_binaries : op ∈ binaries ↔ op = .add ∨ op = .subtract ∨ op = .multiply ∨
    op = .divide ∨ op = .equal ∨ op = .notEqual ∨ op = .less ∨ op = .greater := by
  simp [binaries]

/-- The instructions without operands. -/
def Opcode.bare : List Opcode :=
  Opcode.pushes ++ Opcode.unaries ++ Opcode.binaries ++
    [.print, .pop, .closeUpvalue, .inherit, .ret]

theorem Opcode.operandLength_of_bare : ∀ op ∈ bare, op.operandLength = 0 := by
  decide

/-- An instruction without operands is admitted anywhere. -/
theorem Function.admits_of_bare {height : Nat} (h : op ∈ Opcode.bare) :
    f.Admits heap height op [] := by
  have hlength := Opcode.operandLength_of_bare op h
  have hne : op ≠ .uninitialized := by
    rintro rfl
    exact absurd h (by decide)
  cases op <;> first | exact absurd rfl hne | exact hlength

theorem lt_captureCount (hcaptures : captures.length = f.captureCount) {i : UInt8} {k : SlotKind}
    (h : captures[i.toNat]? = some k) : i.toNat < f.captureCount := by
  rw [← hcaptures]
  exact (List.getElem?_eq_some_iff.1 h).1

theorem lt_succ_length_of_slot? {X : Shape} {i : UInt8} {s : Slot}
    (h : slot? (X ++ [receiver]) i.toNat = some s) : i.toNat < X.length + 1 := by
  simpa using lt_length_of_slot? h

/-- A variable that is read is there. -/
theorem Reads.admits {i : UInt8} {k : SlotKind} {X : Shape}
    (hcaptures : captures.length = f.captureCount)
    (h : Reads ⟨f.chunk.constants, bps, captures, initializes⟩ (X ++ [receiver]) op i k) :
    f.Admits heap (X.length + 1) op [i] := by
  cases h with
  | fromSlot h => exact lt_succ_length_of_slot? h
  | fromCell h => exact lt_captureCount hcaptures h
  | fromGlobal h => exact ⟨_, h⟩

/-- The operands of an instruction that runs are in range and of the right kind. -/
theorem Runs.admits (htable : TableFits bps heap.functions.toList)
    (hcaptures : captures.length = f.captureCount)
    (h : Runs ⟨f.chunk.constants, bps, captures, initializes⟩ [receiver] op operands p q) :
    f.Admits heap (p.shape.length + 1) op operands := by
  -- Each way to run an instruction names the constant, slot or capture that its operands refer to.
  cases h with
  | constant h hv => exact ⟨_, h, hv⟩
  | push h => exact Function.admits_of_bare (by simp [Opcode.bare, h])
  | unary h => exact Function.admits_of_bare (by simp [Opcode.bare, h])
  | binary h => exact Function.admits_of_bare (by simp [Opcode.bare, h])
  | print => exact Function.admits_of_bare (by decide)
  | pop => exact Function.admits_of_bare (by decide)
  | close => exact Function.admits_of_bare (by decide)
  | read h _ => exact h.admits hcaptures
  | write h =>
    cases h with
    | toSlot h _ => exact Nat.lt_succ_of_lt (lt_succ_length_of_slot? h)
    | toCell h => exact lt_captureCount hcaptures h
    | toGlobal h => exact ⟨_, h⟩
  | define h => exact ⟨_, h⟩
  | call => trivial
  | closure h hf _ hsupplies _ =>
    obtain ⟨hlt, hfits⟩ := TableFits.function heap htable hf
    refine ⟨_, _, h, hlt, rfl, hsupplies.length_eq.trans hfits.captures, fun capture hcapture => ?_⟩
    obtain ⟨k, -, hk⟩ := exists_mem_of_forall₂ hsupplies hcapture
    rw [Env.Supplies] at hk
    split at hk
    · next hlocal =>
      rw [if_pos hlocal]
      exact lt_succ_length_of_slot? (X := _ :: _) hk
    · next hlocal =>
      rw [if_neg hlocal]
      exact lt_captureCount hcaptures hk
  | getProperty h => exact ⟨_, h⟩
  | setProperty h => exact ⟨_, h⟩
  | invoke h => exact ⟨_, h⟩
  | readSuper h => exact lt_captureCount hcaptures h
  | readOwn h _ => exact lt_succ_length_of_slot? (i := 0) h
  | getSuper h => exact ⟨_, h⟩
  | invokeSuper h => exact ⟨_, h⟩
  | array => trivial
  | addMember hop h _ =>
    rcases List.mem_pair.1 hop with rfl | rfl <;> exact ⟨_, h⟩
  | newClass h => exact ⟨_, h⟩
  | defineClass h => exact ⟨_, h⟩
  | choose h _ _ => exact h.admits hcaptures
  | pair h _ => exact h.admits hcaptures
  | inherit => exact Function.admits_of_bare (by decide)
  | hold h _ _ => exact h.admits hcaptures

/-- An instruction that runs goes on behind itself, and takes and leaves what its opcode says. -/
theorem Runs.height {Γ : Env} {S : Shape} (h : Runs Γ S op operands p q) :
    (∀ next, op.targets operands next = [next]) ∧ op.takes operands ≤ p.shape.length ∧
      q.shape.length = p.shape.length - op.takes operands + op.leaves ∧ op ≠ .loop := by
  cases h with
  | push h =>
    rcases Opcode.mem_pushes.1 h with rfl | rfl | rfl <;>
      exact ⟨fun _ => rfl, Nat.le_add_left .., rfl, nofun⟩
  | unary h =>
    rcases List.mem_pair.1 h with rfl | rfl <;>
      exact ⟨fun _ => rfl, Nat.le_add_left .., rfl, nofun⟩
  | binary h =>
    rcases Opcode.mem_binaries.1 h with rfl | rfl | rfl | rfl | rfl | rfl | rfl | rfl <;>
      exact ⟨fun _ => rfl, Nat.le_add_left .., rfl, nofun⟩
  | invokeSuper h =>
    simp [Opcode.targets, Opcode.takes, Opcode.leaves]
    omega
  | read h _ => cases h <;> exact ⟨fun _ => rfl, Nat.le_add_left .., rfl, nofun⟩
  | write h => cases h <;> exact ⟨fun _ => rfl, Nat.le_add_left .., rfl, nofun⟩
  | choose h _ _ => cases h <;> exact ⟨fun _ => rfl, Nat.le_add_left .., rfl, nofun⟩
  | pair h _ => cases h <;> exact ⟨fun _ => rfl, Nat.le_add_left .., rfl, nofun⟩
  | hold h _ _ => cases h <;> exact ⟨fun _ => rfl, Nat.le_add_left .., rfl, nofun⟩
  | addMember hop h _ =>
    rcases List.mem_pair.1 hop with rfl | rfl <;>
      exact ⟨fun _ => rfl, Nat.le_add_left .., rfl, nofun⟩
  | _ => simp [Opcode.targets, Opcode.takes, Opcode.leaves]

/-- An instruction that leads on passes the checks that do not depend on where it stands. -/
theorem Leads.checked {points : Nat → Option Point} {next : Nat}
    (htable : TableFits bps heap.functions.toList) (hcaptures : captures.length = f.captureCount)
    (h : Leads ⟨f.chunk.constants, bps, captures, initializes⟩
      [receiver] points next op operands p) :
    f.Admits heap (p.shape.length + 1) op operands ∧ op.takes operands ≤ p.shape.length ∧
      (∀ high low, op = .loop → operands = [high, low] → distanceOf high low ≤ next) ∧
      ∀ target ∈ op.targets operands next, ∃ q, Reaches points target q ∧
        q.shape.length = p.shape.length - op.takes operands + op.leaves := by
  cases h with
  | @run op operands p q h hq =>
    obtain ⟨htargets, htakes, hleaves, hloop⟩ := h.height
    refine ⟨h.admits htable hcaptures, htakes, fun _ _ hop => absurd hop hloop, fun target ht => ?_⟩
    rw [htargets, List.mem_singleton] at ht
    exact ⟨q, ht ▸ hq, hleaves⟩
  | ret _ =>
    exact ⟨Function.admits_of_bare (by decide), by simp [Opcode.takes], by simp,
      by simp [Opcode.targets]⟩
  | jump h =>
    refine ⟨trivial, by simp [Opcode.takes], by simp, fun target ht => ?_⟩
    rw [Opcode.targets, List.mem_singleton] at ht
    subst ht
    exact ⟨_, h, rfl⟩
  | @jumpIfFalse high low X hthen helse =>
    refine ⟨trivial, by simp [Opcode.takes], by simp, fun target ht => ?_⟩
    rw [Opcode.targets, List.mem_pair] at ht
    have hlength : (X.length + 1) = (X.length + 1) - 1 + 1 := by omega
    rcases ht with rfl | rfl
    · exact ⟨_, hthen, hlength⟩
    · exact ⟨_, helse, hlength⟩
  | loop hle h =>
    refine ⟨trivial, by simp [Opcode.takes], ?_, fun target ht => ?_⟩
    · rintro _ _ - hoperands
      obtain ⟨rfl, rfl⟩ : _ ∧ _ := by simpa using hoperands
      exact hle
    · rw [Opcode.targets, List.mem_singleton] at ht
      subst ht
      exact ⟨_, h, rfl⟩


/-- The number of operand bytes of an instruction is the one that is counted from the bytes. -/
theorem Chunk.HasAt.instructionLength? {height offset line : Nat}
    (hat : f.chunk.HasAt offset ⟨op, operands, line⟩) (h : f.Admits heap height op operands) :
    f.chunk.instructionLength? heap offset = some (1 + operands.length) := by
  have hlength : op ≠ .closure → operands.length = op.operandLength := by
    intro hop
    unfold Function.Admits at h
    split at h <;> first | rfl | exact h.elim | exact h.symm | exact absurd rfl hop
  rw [Chunk.instructionLength?, hat.opcodeAt?]
  by_cases hop : op = .closure
  · subst hop
    cases operands with
    | nil => exact absurd h (by simp [Function.Admits, Opcode.operandLength, Opcode.operands])
    | cons c pairs =>
      obtain ⟨id, captures, hconstant, -, rfl, hcount, -⟩ := h
      have hindex : f.chunk.code[offset + 1]? = some c := hat.operand (k := 0) rfl
      simp [Chunk.functionAt?, hindex, hconstant, Value.function?, ← hcount, length_captureBytes,
        Opcode.operandLength, Opcode.operands]
      omega
  · simp [hop, hlength hop]

end

/-! ## Whole functions -/

/-- The instructions of marked code with their offsets. -/
def Marks.listing : Nat → Marks → List (Nat × Opcode)
  | _, [] => []
  | offset, m :: rest => (offset, m.instruction.op) :: listing (offset + m.instruction.size) rest

/-- The instructions of two pieces of code are those of the first, and behind them those of the
second. -/
theorem Marks.listing_append (start : Nat) (a b : Marks) :
    listing start (a ++ b) = a.listing start ++ b.listing (start + a.code.extent) := by
  induction a generalizing start with
  | nil => rfl
  | cons m rest ih =>
    rw [List.cons_append, listing, listing, ih, List.cons_append, code_cons, Code.extent_cons,
      Nat.add_assoc]

/-- An instruction in marked code is behind the extent of those in front of it. -/
theorem Marks.mem_listing {marks : Marks} {start offset : Nat} {op : Opcode} :
    (offset, op) ∈ marks.listing start ↔ ∃ (front : Marks) (m : Mark) (back : Marks),
      marks = front ++ m :: back ∧ offset = start + front.code.extent ∧ op = m.instruction.op := by
  induction marks generalizing start with
  | nil => simp [listing]
  | cons m rest ih =>
    rw [listing, List.mem_cons, ih]
    constructor
    · rintro (heq | ⟨front, m', back, rfl, rfl, rfl⟩)
      · obtain ⟨rfl, rfl⟩ := Prod.mk.inj heq
        exact ⟨[], m, rest, rfl, rfl, rfl⟩
      · exact ⟨m :: front, m', back, rfl, by rw [code_cons, Code.extent_cons, Nat.add_assoc], rfl⟩
    · rintro ⟨front, m', back, hmarks, rfl, rfl⟩
      cases front with
      | nil =>
        obtain ⟨rfl, rfl⟩ := List.cons.inj hmarks
        exact .inl rfl
      | cons m'' front =>
        obtain ⟨rfl, rfl⟩ := List.cons.inj hmarks
        exact .inr ⟨front, m', back, rfl, by rw [code_cons, Code.extent_cons, Nat.add_assoc], rfl⟩

theorem Marks.extent_snoc (front : Marks) (m : Mark) :
    (code (front ++ [m])).extent = front.code.extent + m.instruction.size := by
  rw [code_append, Code.extent_append, code_cons, Code.extent_cons]
  rfl

/-- An instruction has at least one byte. -/
theorem Marks.length_le_extent (marks : Marks) : marks.length ≤ marks.code.extent := by
  induction marks with
  | nil => exact Nat.le_refl _
  | cons m rest ih =>
    have hpos := m.instruction.size_pos
    rw [code_cons, Code.extent_cons, List.length_cons]
    omega

namespace Function.Fits

variable {heap : Heap} {f : Function} {bps : List Blueprint} {bp : Blueprint}

/-- The instruction at a cut of the marked code stands at its offset. -/
theorem hasAt (h : f.Fits bps bp) {front back : Marks} {m : Mark}
    (hmarks : bp.marks = front ++ m :: back) : f.chunk.HasAt front.code.extent m.instruction := by
  have hcode := h.code
  have hlines := h.lines
  rw [hmarks, Marks.code_append, Marks.code_cons] at hcode hlines
  exact .of_code hcode hlines

/-- The instruction at a cut of the marked code leads to known points. -/
theorem leads (h : f.Fits bps bp) {front back : Marks} {m : Mark}
    (hmarks : bp.marks = front ++ m :: back) :
    Leads ⟨f.chunk.constants, bps, bp.captures, bp.initializes⟩ [bp.receiver] (bp.marks.point? none)
      (front.code.extent + m.instruction.size) m.instruction.op m.instruction.operands m.point := by
  have hhold := h.hold
  rw [hmarks] at hhold ⊢
  exact hhold.cut

/-- The length that is read of an instruction is its size. -/
theorem instructionLength? (h : f.Fits bps bp) (htable : TableFits bps heap.functions.toList)
    {front back : Marks} {m : Mark} (hmarks : bp.marks = front ++ m :: back) :
    f.chunk.instructionLength? heap front.code.extent = some m.instruction.size := by
  rw [(h.hasAt hmarks).instructionLength? ((h.leads hmarks).checked htable h.captures).1,
    Nat.add_comm]
  rfl

theorem size_eq (h : f.Fits bps bp) : f.chunk.size = bp.marks.code.extent := by
  rw [Chunk.size, ← Array.length_toList, h.code]
  rfl

/-- The walk over the bytes finds the instructions of the marked code. -/
theorem instructionsFrom_eq (h : f.Fits bps bp) (htable : TableFits bps heap.functions.toList)
    {front rest : Marks} {bound : Nat} (hmarks : bp.marks = front ++ rest)
    (hbound : rest.length ≤ bound) :
    f.chunk.instructionsFrom heap bound front.code.extent = rest.listing front.code.extent := by
  induction rest generalizing front bound with
  | nil =>
    have hend : f.chunk.opcodeAt? front.code.extent = none := by
      rw [Chunk.opcodeAt?, Array.getElem?_eq_none]
      · rfl
      · have hsize := h.size_eq
        rw [hmarks, List.append_nil] at hsize
        exact Nat.le_of_eq hsize
    cases bound with
    | zero => rfl
    | succ bound => rw [Chunk.instructionsFrom, hend]; rfl
  | cons m rest ih =>
    obtain ⟨bound, rfl⟩ := Nat.exists_eq_succ_of_ne_zero
      (Nat.ne_of_gt (Nat.lt_of_lt_of_le (Nat.succ_pos rest.length) hbound))
    have hmarks' : bp.marks = (front ++ [m]) ++ rest := by
      rw [hmarks, List.append_assoc, List.singleton_append]
    have hrest := ih hmarks' (Nat.le_of_succ_le_succ hbound)
    rw [Marks.extent_snoc] at hrest
    rw [Chunk.instructionsFrom, (h.hasAt hmarks).opcodeAt?, h.instructionLength? htable hmarks]
    exact congrArg (_ :: ·) hrest

/-- **The instructions that are read are those of the blueprint**. -/
theorem instructions_eq (h : f.Fits bps bp) (htable : TableFits bps heap.functions.toList) :
    f.chunk.instructions heap = bp.marks.listing 0 := by
  have hlength : bp.marks.length ≤ f.chunk.size := by
    rw [h.size_eq]
    exact Marks.length_le_extent bp.marks
  exact h.instructionsFrom_eq htable (List.nil_append bp.marks).symm hlength

/-- The instructions cover the code from any cut on. -/
theorem covered (h : f.Fits bps bp) (htable : TableFits bps heap.functions.toList)
    {front rest : Marks} (hmarks : bp.marks = front ++ rest) :
    f.Covered heap front.code.extent (rest.listing front.code.extent) := by
  induction rest generalizing front with
  | nil =>
    show front.code.extent = f.chunk.size
    rw [h.size_eq, hmarks, List.append_nil]
  | cons m rest ih =>
    have hmarks' : bp.marks = (front ++ [m]) ++ rest := by
      rw [hmarks, List.append_assoc, List.singleton_append]
    have hrest := ih hmarks'
    rw [Marks.extent_snoc] at hrest
    exact ⟨rfl, (h.hasAt hmarks).opcodeAt?, _, h.instructionLength? htable hmarks, hrest⟩

/-- The height of the stack at an offset. -/
def heightAt (bp : Blueprint) (offset : Nat) : Nat :=
  ((bp.marks.point? none offset).map fun p => p.shape.length + 1).getD 0

/-- Where the code comes to, the stack has the height that is marked, over the callee. -/
theorem heightAt_of_reaches {offset : Nat} {q : Point}
    (h : Reaches (bp.marks.point? none) offset q) : heightAt bp offset = q.shape.length + 1 := by
  obtain ⟨r, hr, hle⟩ := h
  rw [heightAt, hr, hle.1.length_eq]
  rfl

/-- **A function that is as its blueprint says passes the verifier.** -/
theorem verified (h : f.Fits bps bp) (htable : TableFits bps heap.functions.toList) :
    f.Verified heap := by
  have hlist := h.instructions_eq htable
  -- The heights are those of the shapes that the blueprint gives to the offsets.
  refine ⟨?_, ?_, heightAt bp, ?_, fun offset op hmem => ?_⟩
  · rw [hlist]
    exact h.covered htable (List.nil_append bp.marks).symm
  · obtain ⟨front, line, hlast⟩ := h.last
    obtain ⟨ms, last, hmarks, -, hcode⟩ := List.map_eq_append_iff.1 hlast
    obtain ⟨m, rfl, hm⟩ := List.map_eq_singleton_iff.1 hcode
    rw [hlist, hmarks, Marks.listing_append, Marks.listing, List.getLast?_append, hm]
    exact ⟨_, rfl⟩
  · rw [heightAt_of_reaches h.entry, h.arity]
  · rw [hlist] at hmem
    obtain ⟨front, m, back, hmarks, hoffset, rfl⟩ := Marks.mem_listing.1 hmem
    rw [Nat.zero_add] at hoffset
    subst hoffset
    have hat := h.hasAt hmarks
    obtain ⟨hadmits, htakes, hback, htargets⟩ := (h.leads hmarks).checked htable h.captures
    have hheight : heightAt bp front.code.extent = m.point.shape.length + 1 := by
      rw [heightAt, hmarks, Marks.point?_cut]
      rfl
    have hnext : front.code.extent + m.instruction.size
        = front.code.extent + 1 + m.instruction.operands.length := by
      rw [Instruction.size]
      omega
    rw [hnext] at hback htargets
    exact ⟨m.instruction.operands, {
      bytes := fun k hk => by
        rw [List.getElem?_eq_getElem hk]
        exact hat.operand (List.getElem?_eq_getElem hk)
      length := hat.instructionLength? hadmits
      line := ⟨m.instruction.line, fun k hk => hat.line k (Nat.lt_succ_of_le hk)⟩
      admits := by
        rw [hheight]
        exact hadmits
      room := by
        rw [hheight]
        exact Nat.lt_succ_of_le htakes
      back := hback
      start := fun target ht => by
        obtain ⟨q, ⟨r, hr, -⟩, -⟩ := htargets target ht
        obtain ⟨front', m', back', hmarks', rfl, -⟩ := Marks.exists_cut_of_point? hr
        rw [hlist]
        exact ⟨_, Marks.mem_listing.2 ⟨front', m', back', hmarks', (Nat.zero_add _).symm, rfl⟩⟩
      next := fun target ht => by
        obtain ⟨q, hq, hlength⟩ := htargets target ht
        rw [heightAt_of_reaches hq, hheight, hlength]
        omega }⟩

end Function.Fits

/-! ## Compiled sources -/

/-- The functions of a program that are reached from the one that runs first, through constants. -/
inductive Program.Reachable (program : Program) : FunctionId → Prop
  | main : Reachable program program.main
  | constant {id id' : FunctionId} (h : Reachable program id)
      (hconstant : .functionRef id' ∈ (program.heap.function id).chunk.constants.toList) :
      Reachable program id'

/-- The functions that are reached are in the table. -/
theorem Program.Reachable.lt_length {bps : List Blueprint} {program : Program} {id : FunctionId}
    (h : program.Reachable id) (htable : TableFits bps program.functions.toList)
    (hmain : program.main.index < bps.length) : id.index < bps.length := by
  induction h with
  | main => exact hmain
  | constant _ hconstant ih =>
    have hfits := (TableFits.function program.heap htable (List.getElem?_eq_getElem ih)).2
    exact hfits.constants.references _ hconstant

/-- **Every function of a compiled source passes the verifier.** -/
theorem verified_of_reachable {source : String} {program : Program} {id : FunctionId}
    (h : Program.compile source = .ok program) (hid : program.Reachable id) :
    (program.heap.function id).Verified program.heap := by
  obtain ⟨bps, bp, -, -, htable, hmain, -⟩ := compileAfter_fits h List.Forall₂.nil
  have hlt := hid.lt_length htable (by rw [hmain]; simp)
  obtain ⟨-, hfits⟩ := TableFits.function program.heap htable (List.getElem?_eq_getElem hlt)
  exact hfits.verified htable

/-- A function inside a block that captures a variable of it passes. -/
theorem verified_of_reachable_inner : ∃ program,
    Program.compile "\x7b var x = 1; func f() \x7b return x; \x7d print f(); \x7d" = .ok program ∧
      program.Reachable ⟨0⟩ ∧ (program.heap.function ⟨0⟩).Verified program.heap := by
  have hchecked : (match Program.compile
    "\x7b var x = 1; func f() \x7b return x; \x7d print f(); \x7d" with
      | .ok program => program.mainFunction.chunk.constants.toList.any (·.function? == some ⟨0⟩)
      | .error _ => false) = true := by decide +kernel
  split at hchecked
  · next program hprogram =>
    obtain ⟨v, hv, hid⟩ := List.any_eq_true.1 hchecked
    have hid := eq_of_beq hid
    obtain rfl : v = .functionRef ⟨0⟩ := by
      cases v <;> simp_all [Value.function?]
    have hreachable := Program.Reachable.constant (@Program.Reachable.main program) hv
    exact ⟨program, hprogram, hreachable, verified_of_reachable hprogram hreachable⟩
  · simp at hchecked

end ScriptVM
