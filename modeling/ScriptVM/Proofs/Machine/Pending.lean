/-
# Pending values

A value on the stack is pending where an instruction that may still come takes it as an
operand.  The code of a function says which they are, by the distance from the top of the stack
(`Function.Pending`), and with the calls in progress that is known of the whole stack
(`Machine.Pending`): a call that waits for a result has pending values below those that the result
is taken with.

No closure ever captures the slot of a pending value.

Main statement: `Machine.Running.pending_not_open`.
-/
import ScriptVM.Proofs.Machine.Variables
import ScriptVM.Proofs.Program.Verified

namespace ScriptVM

/-! ## Code -/

/-- An instruction stands at an offset of a function, with its operand bytes. -/
structure Function.InstructionAt (heap : Heap) (f : Function) (offset : Nat) (op : Opcode)
    (operands : List UInt8) : Prop where
  /-- The opcode comes first. -/
  opcode : f.chunk.opcodeAt? offset = some op
  /-- The length is counted from the bytes. -/
  length : f.chunk.instructionLength? heap offset = some (1 + operands.length)
  /-- The operand bytes follow. -/
  bytes : ∀ k < operands.length, f.chunk.code[offset + 1 + k]? = operands[k]?

/-- Before the instruction at an offset, the value at a distance from the top of the stack is
pending: this instruction or a later one takes it as an operand.  The instruction that ends the
scope of a captured variable takes no operand. -/
inductive Function.Pending (heap : Heap) (f : Function) : Nat → Nat → Prop
  | taken {offset distance : Nat} {op : Opcode} {operands : List UInt8}
      (hat : f.InstructionAt heap offset op operands) (hop : op ≠ .closeUpvalue)
      (h : distance < op.takes operands) : Pending heap f offset distance
  | later {offset distance target : Nat} {op : Opcode} {operands : List UInt8}
      (hat : f.InstructionAt heap offset op operands)
      (htarget : target ∈ op.targets operands (offset + 1 + operands.length))
      (hle : op.takes operands ≤ distance)
      (h : Pending heap f target (distance - op.takes operands + op.leaves)) :
      Pending heap f offset distance

section

variable {Γ : Env} {S : Shape} {op : Opcode} {operands : List UInt8} {p q : Point}

/-- An instruction takes slots that no closure captures, unless it ends the scope of a variable. -/
theorem Runs.captured_of_takes (h : Runs Γ S op operands p q) (hop : op ≠ .closeUpvalue) :
    ∀ s ∈ p.shape.take (op.takes operands), s.captured = false := by
  have hcall : ∀ (n : Nat) (X : Shape), ∀ s ∈ (List.replicate n Slot.operand ++ X).take n,
      s.captured = false := by
    intro n X s hs
    rw [List.take_left' List.length_replicate] at hs
    exact captured_of_mem_replicate hs
  cases h with
  | push h =>
    rcases Opcode.mem_pushes.1 h with rfl | rfl | rfl <;> simp [Opcode.takes]
  | unary h =>
    rcases List.mem_pair.1 h with rfl | rfl <;> simp [Opcode.takes]
  | binary h =>
    rcases Opcode.mem_binaries.1 h with rfl | rfl | rfl | rfl | rfl | rfl | rfl | rfl <;>
      simp [Opcode.takes]
  | close => exact absurd rfl hop
  | call => exact hcall _ _
  | invoke _ => exact hcall _ _
  | array => exact hcall _ _
  | @invokeSuper c n name X h =>
    intro s hs
    have hsplit : Slot.temp .parent :: (List.replicate n.toNat .operand ++ Slot.temp .receiver :: X)
        = (Slot.temp .parent :: (List.replicate n.toNat .operand ++ [.temp .receiver])) ++ X := by
      simp
    rw [hsplit, List.take_left' (by simp [Opcode.takes])] at hs
    rcases List.mem_cons.1 hs with rfl | hs
    · rfl
    · rcases List.mem_append.1 hs with hs | hs
      · exact captured_of_mem_replicate hs
      · rw [List.mem_singleton.1 hs]
  | read h _ => cases h <;> simp [Opcode.takes]
  | write h => cases h <;> simp [Opcode.takes]
  | choose h _ _ => cases h <;> simp [Opcode.takes]
  | pair h _ => cases h <;> simp [Opcode.takes]
  | hold h _ _ => cases h <;> simp [Opcode.takes]
  | addMember hop h _ => rcases List.mem_pair.1 hop with rfl | rfl <;> simp [Opcode.takes]
  | _ => simp [Opcode.takes]

/-- The slots below those that an instruction takes are below those that it leaves. -/
theorem Runs.drop_eq (h : Runs Γ S op operands p q) :
    q.shape.drop op.leaves = p.shape.drop (op.takes operands) := by
  have hcall : ∀ (n : Nat) (X : Shape), X = (List.replicate n Slot.operand ++ X).drop n :=
    fun n X => (List.drop_left' List.length_replicate).symm
  cases h with
  | push h =>
    rcases Opcode.mem_pushes.1 h with rfl | rfl | rfl <;> rfl
  | unary h =>
    rcases List.mem_pair.1 h with rfl | rfl <;> rfl
  | binary h =>
    rcases Opcode.mem_binaries.1 h with rfl | rfl | rfl | rfl | rfl | rfl | rfl | rfl <;> rfl
  | call => exact hcall _ _
  | invoke _ => exact hcall _ _
  | array => exact hcall _ _
  | @invokeSuper c n name X h =>
    have hsplit : Slot.temp .parent :: (List.replicate n.toNat .operand ++ Slot.temp .receiver :: X)
        = (Slot.temp .parent :: (List.replicate n.toNat .operand ++ [.temp .receiver])) ++ X := by
      simp
    rw [hsplit, List.drop_left' (by simp [Opcode.takes])]
    rfl
  | read h _ => cases h <;> rfl
  | write h => cases h <;> rfl
  | choose h _ _ => cases h <;> rfl
  | pair h _ => cases h <;> rfl
  | hold h _ _ => cases h <;> rfl
  | addMember hop h _ =>
    rcases List.mem_pair.1 hop with rfl | rfl <;> rfl
  | _ => rfl

variable {points : Nat → Option Point} {next : Nat}

/-- Only the instruction that closes a captured variable takes a captured slot. -/
theorem Leads.captured_of_takes (h : Leads Γ S points next op operands p)
    (hop : op ≠ .closeUpvalue) : ∀ s ∈ p.shape.take (op.takes operands), s.captured = false := by
  cases h with
  | run h _ => exact h.captured_of_takes hop
  | ret => simp [Opcode.takes]
  | jump _ => simp [Opcode.takes]
  | jumpIfFalse _ _ => simp [Opcode.takes]
  | loop _ _ => simp [Opcode.takes]

/-- Wherever the code goes on, the slots that were not taken are below those that are left. -/
theorem Leads.drop_eq (h : Leads Γ S points next op operands p) {target : Nat}
    (htarget : target ∈ op.targets operands next) :
    ∃ q, Reaches points target q ∧ q.shape.drop op.leaves = p.shape.drop (op.takes operands) := by
  cases h with
  | run h hq =>
    rw [h.height.1, List.mem_singleton] at htarget
    exact ⟨_, htarget ▸ hq, h.drop_eq⟩
  | ret => simp [Opcode.targets] at htarget
  | jump h =>
    rw [Opcode.targets, List.mem_singleton] at htarget
    exact ⟨_, htarget ▸ h, rfl⟩
  | jumpIfFalse hthen helse =>
    rw [Opcode.targets, List.mem_pair] at htarget
    rcases htarget with rfl | rfl
    · exact ⟨_, hthen, rfl⟩
    · exact ⟨_, helse, rfl⟩
  | loop hle h =>
    rw [Opcode.targets, List.mem_singleton] at htarget
    exact ⟨_, htarget ▸ h, rfl⟩

end

/-- Where fewer slots are captured, those that are not captured later are not captured either. -/
theorem Shape.Le.uncaptured {X Y : Shape} {d : Nat} (hle : X.Le Y)
    (h : ∃ t, Y[d]? = some t ∧ t.captured = false) : ∃ s, X[d]? = some s ∧ s.captured = false := by
  obtain ⟨t, ht, hfree⟩ := h
  obtain ⟨hlt, rfl⟩ := List.getElem?_eq_some_iff.1 ht
  have hlt' : d < X.length := by
    rw [List.Forall₂.length_eq hle]
    exact hlt
  have hst : (X[d]).Le (Y[d]) := List.Forall₂.get hle hlt' hlt
  refine ⟨X[d], List.getElem?_eq_getElem hlt', ?_⟩
  cases hs : (X[d]).captured with
  | false => rfl
  | true => exact (hst.2 hs).symm.trans hfree

/-- The instruction at an offset is the marked one. -/
theorem Function.Fits.eq_of_instructionAt {heap : Heap} {f : Function} {bps : List Blueprint}
    {bp : Blueprint} (h : f.Fits bps bp) (htable : TableFits bps heap.functions.toList)
    {front back : Marks} {m : Mark} (hmarks : bp.marks = front ++ m :: back) {op : Opcode}
    {operands : List UInt8} (hat : f.InstructionAt heap front.code.extent op operands) :
    op = m.instruction.op ∧ operands = m.instruction.operands := by
  have hhas := h.hasAt hmarks
  refine ⟨Option.some.inj (hat.opcode.symm.trans hhas.opcodeAt?), ?_⟩
  have hlength : operands.length = m.instruction.operands.length := by
    have heq := Option.some.inj (hat.length.symm.trans (h.instructionLength? htable hmarks))
    rw [Instruction.size] at heq
    omega
  refine List.ext_getElem hlength fun k hk hk' => Option.some.inj ?_
  rw [← List.getElem?_eq_getElem hk, ← hat.bytes k hk]
  exact hhas.operand (List.getElem?_eq_getElem hk')

/-- **The slot of a pending value** is known at its point of the code, and not captured. -/
theorem Function.Pending.uncaptured {heap : Heap} {f : Function} {bps : List Blueprint}
    {bp : Blueprint} (hfits : f.Fits bps bp) (htable : TableFits bps heap.functions.toList)
    {offset distance : Nat} (h : f.Pending heap offset distance) {p : Point}
    (hp : Reaches (bp.marks.point? none) offset p) :
    ∃ s, p.shape[distance]? = some s ∧ s.captured = false := by
  induction h generalizing p with
  | taken hat hop hlt =>
    obtain ⟨r, hr, hle⟩ := hp
    obtain ⟨front, m, back, hmarks, rfl, rfl⟩ := Marks.exists_cut_of_point? hr
    obtain ⟨rfl, rfl⟩ := hfits.eq_of_instructionAt htable hmarks hat
    have hleads := hfits.leads hmarks
    have hlength := (hleads.checked htable hfits.captures).2.1
    have hsize := Nat.lt_of_lt_of_le hlt hlength
    refine hle.1.uncaptured ⟨_, List.getElem?_eq_getElem hsize, ?_⟩
    have htake := List.getElem?_take_of_lt (l := m.point.shape) hlt
    rw [List.getElem?_eq_getElem hsize] at htake
    exact hleads.captured_of_takes hop _ (List.mem_of_getElem? htake)
  | @later offset distance target op operands hat htarget hge _ ih =>
    obtain ⟨r, hr, hle⟩ := hp
    obtain ⟨front, m, back, hmarks, rfl, rfl⟩ := Marks.exists_cut_of_point? hr
    obtain ⟨rfl, rfl⟩ := hfits.eq_of_instructionAt htable hmarks hat
    have hnext : front.code.extent + 1 + m.instruction.operands.length
        = front.code.extent + m.instruction.size := by
      rw [Instruction.size]
      omega
    rw [hnext] at htarget
    obtain ⟨q, hq, hdrop⟩ := (hfits.leads hmarks).drop_eq htarget
    obtain ⟨s, hs, hfree⟩ := ih hq
    -- The slot is as far below what the instruction leaves as it was below what it takes.
    rw [Nat.add_comm, ← List.getElem?_drop, hdrop, List.getElem?_drop,
      Nat.add_sub_cancel' hge] at hs
    exact hle.1.uncaptured ⟨s, hs, hfree⟩

/-! ## Calls in progress -/

/-- The number of values that a description leaves on the stack. -/
def Purpose.results : Purpose → Nat
  | .print => 0
  | .write | .text => 1

/-- The number of values that the use of a result leaves on the stack. -/
def Resume.results : Resume → Nat
  | .finish => 0
  | .caller | .property | .superProperty | .invocation _ => 1
  | .description pending => pending.purpose.results

/-- A stack slot holds a pending value of some calls, innermost first, the first of which goes on
with `height` values on the stack. -/
inductive PendingIn (heap : Heap) : List Frame → Nat → Nat → Prop
  /-- The first call takes it later. -/
  | own {f : Frame} {rest : List Frame} {height i : Nat} (hi : i < height)
      (h : (heap.functionOf f.closure).Pending heap f.ip (height - 1 - i)) :
      PendingIn heap (f :: rest) height i
  /-- It is taken together with the result of the first call. -/
  | held {f : Frame} {rest : List Frame} {height i : Nat} (hle : f.slots - f.resume.waiting ≤ i)
      (hlt : i < f.slots) : PendingIn heap (f :: rest) height i
  /-- It is pending when the result of the first call has been used. -/
  | outer {f : Frame} {rest : List Frame} {height i : Nat} (hlt : i < f.slots - f.resume.waiting)
      (h : PendingIn heap rest (f.slots - f.resume.waiting + f.resume.results) i) :
      PendingIn heap (f :: rest) height i

/-- **A stack slot holds a pending value.** -/
def Machine.Pending (m : Machine) (i : Nat) : Prop :=
  PendingIn m.heap m.calls m.stack.size i

/-- As many values are taken and given as wait for a result and come of it. -/
theorem Resume.length_of_trade? {r : Resume} {taken given : Shape}
    (h : r.trade? = some ⟨taken, given⟩) : taken.length = r.waiting ∧ given.length = r.results := by
  cases r with
  | finish => cases h
  | description pending =>
    obtain ⟨rfl, rfl⟩ := Trade.mk.inj (Option.some.inj h)
    refine ⟨rfl, ?_⟩
    show pending.purpose.given.length = pending.purpose.results
    cases pending.purpose <;> rfl
  | _ =>
    obtain ⟨rfl, rfl⟩ := Trade.mk.inj (Option.some.inj h)
    simp [waiting, results]

/-- The slots of a stack that are not captured. -/
def Shape.Free (S : Shape) (i : Nat) : Prop :=
  ∃ s, slot? S i = some s ∧ s.captured = false

theorem Shape.Free.append {S : Shape} {i : Nat} (h : S.Free i) (X : Shape) :
    Shape.Free (X ++ S) i := by
  obtain ⟨s, hs, hfree⟩ := h
  exact ⟨s, slot?_append_of_some hs, hfree⟩

/-- The slot at a distance from the top is free if it is free from the bottom. -/
theorem Shape.free_of_getElem? {X S : Shape} {d : Nat}
    (h : ∃ s, X[d]? = some s ∧ s.captured = false) :
    Shape.Free (X ++ S) ((X ++ S).length - 1 - d) := by
  obtain ⟨s, hs, hfree⟩ := h
  have hlt := (List.getElem?_eq_some_iff.1 hs).1
  refine ⟨s, ?_, hfree⟩
  rw [slot?_eq_getElem?_reverse, List.getElem?_reverse (by rw [List.length_append]; omega),
    List.getElem?_append_left (by rw [List.length_append]; omega), ← hs]
  congr 1
  rw [List.length_append]
  omega

namespace PendingIn

variable {W : World} {heap : Heap} {f : Frame} {rest calls : List Frame} {bp : Blueprint}
  {G X S below : Shape} {st : Stage} {i : Nat}

/-- The pending values of a call, which goes on with other slots on top, and of those that wait for
its result have slots that are not captured. -/
theorem free_of_reaches (hheap : heap.Ok W) (hbp : W.closures[f.closure.index]? = some bp)
    (hslots : f.slots = below.length)
    (hat : Reaches (bp.marks.point? none) f.ip ⟨G ++ X, st⟩)
    (hrest : Waits W f.resume.trade? rest below)
    (hbelow : ∀ i < below.length - f.resume.waiting,
      PendingIn heap rest (below.length - f.resume.waiting + f.resume.results) i → below.Free i)
    (h : PendingIn heap (f :: rest) (G.length + (X ++ bp.receiver :: below).length) i)
    (hi : i < (X ++ bp.receiver :: below).length) : Shape.Free (X ++ bp.receiver :: below) i := by
  cases h with
  | own _ h =>
    obtain ⟨s, hs, hfree⟩ := h.uncaptured (hheap.functionOf hbp) hheap.table hat
    have hge : G.length ≤ G.length + (X ++ bp.receiver :: below).length - 1 - i := by omega
    have hs : (G ++ X)[G.length + (X ++ bp.receiver :: below).length - 1 - i]? = some s := hs
    rw [List.getElem?_append_right hge] at hs
    have hslot := Shape.free_of_getElem? (S := bp.receiver :: below) ⟨s, hs, hfree⟩
    rwa [show (X ++ bp.receiver :: below).length - 1
      - (G.length + (X ++ bp.receiver :: below).length - 1 - i - G.length) = i by omega] at hslot
  | held hle hlt =>
    obtain ⟨T, U, rfl, hT, hfree⟩ := hrest.exists_waiting
    rw [hslots] at hlt
    rw [hslots, List.length_append, hT, Nat.add_sub_cancel_left] at hle
    obtain ⟨j, rfl⟩ := Nat.exists_eq_add_of_le hle
    rw [List.length_append] at hlt
    obtain ⟨s, hs⟩ := exists_slot? (l := T) (i := j) (by omega)
    have hslot : Shape.Free (T ++ U) (U.length + j) :=
      ⟨s, by rw [slot?_append_right, hs], hfree s (mem_of_slot? hs)⟩
    exact (hslot.append [bp.receiver]).append X
  | outer hlt h =>
    rw [hslots] at hlt h
    exact ((hbelow i hlt h).append [bp.receiver]).append X

/-- The pending values of calls that wait for a result have slots that are not captured. -/
theorem free_of_waits (hheap : heap.Ok W) {trade : Option Trade} (hw : Waits W trade calls S)
    {r : Resume} (hr : trade = r.trade?) (hi : i < S.length - r.waiting)
    (h : PendingIn heap calls (S.length - r.waiting + r.results) i) : S.Free i := by
  induction hw generalizing r i with
  | finish => simp at hi
  | @call f rest bp taken given X below hbp hslots hat hrest ih =>
    obtain ⟨htaken, hgiven⟩ := Resume.length_of_trade? hr.symm
    rw [List.length_append, htaken, Nat.add_sub_cancel_left] at hi h
    rw [← hgiven, Nat.add_comm] at h
    exact (free_of_reaches hheap hbp hslots hat hrest (fun j hj hpending => ih rfl hj hpending)
      h hi).append taken

end PendingIn

/-- **No cell stands for the slot of a pending value.** -/
theorem Machine.Running.pending_not_open {ground : Ground} {m : Machine} (h : m.Running ground)
    (htrusted : Trusted ground.stale) {i j : Nat} (hi : m.Pending i) :
    m.heap.cells[j]? ≠ some (.openAt i) := by
  obtain ⟨W, f, rest, bp, X, below, st, rfl, h⟩ := h
  intro hopen
  have hlt := Machine.Running.lt_of_open ⟨W, f, rest, bp, X, below, st, rfl, h⟩ htrusted hopen
  have hsize : m.stack.size = (X ++ bp.receiver :: below).length := by
    rw [m.size_stack, h.typed.length_values]
  rw [hsize] at hlt
  rw [Machine.Pending, h.calls, hsize, ← Nat.zero_add (X ++ bp.receiver :: below).length] at hi
  have hfree := PendingIn.free_of_reaches (G := []) h.typed.heap h.function h.slots
    ⟨_, h.point, .refl _⟩ h.waits
    (fun k hk hpending => PendingIn.free_of_waits h.typed.heap h.waits rfl hk hpending) hi hlt
  obtain ⟨s, hs, hfree⟩ := hfree
  obtain ⟨-, kind, -, hslot⟩ :=
    h.typed.cells.opened j i (h.typed.heap.stale_le htrusted hopen) hopen
  obtain rfl := Option.some.inj (hs.symm.trans hslot)
  cases hfree

end ScriptVM
