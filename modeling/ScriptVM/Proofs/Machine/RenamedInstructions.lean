/-
# Instructions on renamed machines

An instruction does the same on two machines in step (`Machine.InStep`), if both have it before them
and there are enough values for it; it may name its constants by other numbers
(`Opcode.Renumbers`).
-/
import ScriptVM.Proofs.Machine.RenamedPrimitives
import ScriptVM.Proofs.Program.RelocatedBuilders

namespace ScriptVM

/-! ## Operands -/

/-- A constant that is pushed is the same value. -/
theorem Value.Restated.renamed_of_isLiteral {ρ : Renaming} {v v' : Value} (h : v.Restated ρ v')
    (hv : v.isLiteral = true) : v.Renamed ρ v' := by
  cases h with
  | functionRef _ => cases hv
  | @same v _ =>
    refine .fixed ?_
    cases v <;> first | rfl | cases hv

/-- The operands have the form that the opcode asks for. -/
theorem Function.Admits.shape {f : Function} {heap : Heap} {height : Nat} {op : Opcode}
    {operands : List UInt8} (h : f.Admits heap height op operands) :
    match op.operands with
    | .none => operands = []
    | .constant | .byte => ∃ c, operands = [c]
    | .forward | .backward | .invocation => ∃ c d, operands = [c, d]
    | .captures => ∃ c captures, operands = c :: captureBytes captures := by
  unfold Function.Admits at h
  split at h <;> first
    | exact h.elim
    | exact ⟨_, rfl⟩
    | exact ⟨_, _, rfl⟩
    | skip
  · obtain ⟨id, captures, -, -, rfl, -⟩ := h
    exact ⟨_, captures, rfl⟩
  · cases op <;> first | rfl | cases h

/-! ## Innermost calls -/

namespace Machine.InStep

variable {P : Pairing} {n ip ip' : Nat} {m m' : Machine} {f f' : Frame} {rest rest' : List Frame}

/-- The innermost calls are lowest ones, or the same. -/
theorem innermost (h : m.InStep P n m') (hcalls : m.calls = f :: rest)
    (hcalls' : m'.calls = f' :: rest') :
    rest = [] ∧ rest' = [] ∧ f.Lowest P f' ∨ f.Renamed P.toRenaming f' ∧
      OnBottom (Frame.Renamed P.toRenaming) (Frame.Lowest P) rest rest' := by
  have hframes := h.calls
  rw [hcalls, hcalls'] at hframes
  cases hframes with
  | bottom hf => exact .inl ⟨rfl, rfl, hf⟩
  | above hf hrest => exact .inr ⟨hf, hrest⟩

/-- Both innermost calls go on elsewhere, as far from where they stand. -/
theorem moveTo (h : m.InStep P n m') (hcalls : m.calls = f :: rest)
    (hcalls' : m'.calls = f' :: rest') (hip : ip' + f.ip = ip + f'.ip) :
    (m.moveTo ip).InStep P n (m'.moveTo ip') := by
  have hframes : OnBottom (Frame.Renamed P.toRenaming) (Frame.Lowest P) (m.moveTo ip).calls
      (m'.moveTo ip').calls := by
    rw [Machine.calls_moveTo hcalls, Machine.calls_moveTo hcalls']
    rcases h.innermost hcalls hcalls' with ⟨rfl, rfl, hf⟩ | ⟨hf, hrest⟩
    · refine .bottom { hf with ip := ?_ }
      have hat := hf.ip
      show ip' = ip + P.shift
      omega
    · refine .above { hf with ip := ?_ } hrest
      have hat := hf.ip
      show ip = ip'
      omega
  exact { h with calls := hframes }

/-- The innermost calls capture the same cells. -/
theorem captures_eq (h : m.InStep P n m') (hcalls : m.calls = f :: rest)
    (hcalls' : m'.calls = f' :: rest') :
    (m.heap.closure f.closure).captures = (m'.heap.closure f'.closure).captures := by
  rcases h.innermost hcalls hcalls' with ⟨-, -, hf⟩ | ⟨hf, -⟩
  · rw [hf.closure, hf.closure', Heap.closure, Heap.closure, Array.getD_eq_getD_getElem?,
      Array.getD_eq_getD_getElem?, h.main, h.main']
    rfl
  · exact (h.heap.closures hf.closure).captures

end Machine.InStep

/-- The innermost calls of two machines have the same instruction before them. -/
structure Machine.Faces (P : Pairing) (m m' : Machine) (f f' : Frame) (i i' : Instruction) :
    Prop where
  /-- The first one is the innermost call. -/
  calls : ∃ rest, m.calls = f :: rest
  /-- The second one is the innermost call. -/
  calls' : ∃ rest', m'.calls = f' :: rest'
  /-- Their slots count from the same callee. -/
  slots : f.slots = f'.slots
  /-- Lowest calls do not look at the lowest slot. -/
  spares : f.slots = 0 → i.Spares
  /-- The operands of the first one are in its code. -/
  bytes : ∀ {k byte}, i.operands[k]? = some byte →
    (Exec.chunkOf m f).code[f.ip + 1 + k]? = some byte
  /-- The operands of the second one are in its code. -/
  bytes' : ∀ {k byte}, i'.operands[k]? = some byte →
    (Exec.chunkOf m' f').code[f'.ip + 1 + k]? = some byte
  /-- The operands are the same. -/
  renumbers : i.op.Renumbers (Value.Restated P.toRenaming) (Exec.chunkOf m f).constants
    (Exec.chunkOf m' f').constants
    i.operands i'.operands

namespace Machine.Faces

open Exec

variable {P : Pairing} {n : Nat} {m m' : Machine} {f f' : Frame} {i i' : Instruction}
  {T : Unit → Unit → Machine → Machine → Prop}

/-- Both machines move on by as many bytes. -/
theorem moved (hi : m.Faces P m' f f' i i') (h : m.InStep P n m') (d : Nat) :
    (m.moveTo (f.ip + d)).InStep P n (m'.moveTo (f'.ip + d)) := by
  obtain ⟨rest, hcalls⟩ := hi.calls
  obtain ⟨rest', hcalls'⟩ := hi.calls'
  exact h.moveTo hcalls hcalls' (by omega)

/-- An operand byte that is no index of a constant is read. -/
theorem bind_byte (hi : m.Faces P m' f f' i i') {k : Nat} {byte : UInt8}
    (hbyte : i.operands[k]? = some byte) (hk : i.op.refers = false ∨ 0 < k)
    {g g' : UInt8 → Exec Unit}
    (hg : Mirrors (g byte) (g' byte) (m.moveTo (f.ip + (k + 2))) (m'.moveTo (f'.ip + (k + 2))) T) :
    Mirrors (readByte >>= g) (readByte >>= g') (m.moveTo (f.ip + (k + 1)))
      (m'.moveTo (f'.ip + (k + 1))) T := by
  obtain ⟨rest, hcalls⟩ := hi.calls
  obtain ⟨rest', hcalls'⟩ := hi.calls'
  have hbyte' : i'.operands[k]? = some byte := by
    have hsame := hi.renumbers
    generalize i.operands = operands at hbyte hsame
    generalize i'.operands = operands' at hsame
    cases hsame with
    | same _ => exact hbyte
    | constant hrefers _ _ _ =>
      cases k with
      | zero =>
        rcases hk with hk | hk
        · rw [hrefers] at hk
          cases hk
        · exact absurd hk (Nat.lt_irrefl 0)
      | succ k => exact hbyte
  have hread : f.ip + 1 + k = f.ip + (k + 1) := by omega
  have hread' : f'.ip + 1 + k = f'.ip + (k + 1) := by omega
  exact Mirrors.bind_of_eq (readByte_eq hcalls (hread ▸ hi.bytes hbyte))
    (readByte_eq hcalls' (hread' ▸ hi.bytes' hbyte')) hg

/-- The constant that the operands start with is the same, whatever its index. -/
theorem exists_constant (hi : m.Faces P m' f f' i i') (hrefers : i.op.refers = true) {c : UInt8}
    {v : Value} {operands : List UInt8} (hc : i.operands = c :: operands)
    (hv : (chunkOf m f).constants[c.toNat]? = some v) :
    ∃ c' v', i'.operands = c' :: operands ∧ (chunkOf m' f').constants[c'.toNat]? = some v' ∧
      v.Restated P.toRenaming v' := by
  have hsame := hi.renumbers
  rw [hc] at hsame
  generalize hoperands' : i'.operands = operands' at hsame
  cases hsame with
  | same h => exact absurd (h.symm.trans hrefers) (by simp)
  | constant _ hw hw' hww' =>
    obtain rfl := Option.some.inj (hw.symm.trans hv)
    exact ⟨_, _, rfl, hw', hww'⟩

/-- Both machines read a constant, each by its own index. -/
theorem bind_constant (hi : m.Faces P m' f f' i i') (hrefers : i.op.refers = true) {c : UInt8}
    {v : Value} {operands : List UInt8} (hc : i.operands = c :: operands)
    (hv : (chunkOf m f).constants[c.toNat]? = some v) {g g' : Value → Exec Unit}
    (hg : ∀ v', v.Restated P.toRenaming v' →
      Mirrors (g v) (g' v') (m.moveTo (f.ip + 2)) (m'.moveTo (f'.ip + 2)) T) :
    Mirrors (readConstant >>= g) (readConstant >>= g') (m.moveTo (f.ip + 1))
      (m'.moveTo (f'.ip + 1)) T := by
  obtain ⟨rest, hcalls⟩ := hi.calls
  obtain ⟨rest', hcalls'⟩ := hi.calls'
  obtain ⟨c', v', hc', hv', hsame⟩ := hi.exists_constant hrefers hc hv
  have hbyte := hi.bytes (k := 0) (congrArg (·[0]?) hc)
  have hbyte' := hi.bytes' (k := 0) (congrArg (·[0]?) hc')
  exact Mirrors.bind_of_eq (readConstant_eq hcalls hbyte hv) (readConstant_eq hcalls' hbyte' hv')
    (hg v' hsame)

/-- Both machines read the same name. -/
theorem bind_name (hi : m.Faces P m' f f' i i') (hrefers : i.op.refers = true) {c : UInt8}
    {name : String} {operands : List UInt8} (hc : i.operands = c :: operands)
    (hname : (chunkOf m f).constants[c.toNat]? = some (.string name)) {g g' : String → Exec Unit}
    (hg : Mirrors (g name) (g' name) (m.moveTo (f.ip + 2)) (m'.moveTo (f'.ip + 2)) T) :
    Mirrors (readName >>= g) (readName >>= g') (m.moveTo (f.ip + 1)) (m'.moveTo (f'.ip + 1)) T := by
  obtain ⟨rest, hcalls⟩ := hi.calls
  obtain ⟨rest', hcalls'⟩ := hi.calls'
  obtain ⟨c', v', hc', hv', hsame⟩ := hi.exists_constant hrefers hc hname
  have hbyte := hi.bytes (k := 0) (congrArg (·[0]?) hc)
  have hbyte' := hi.bytes' (k := 0) (congrArg (·[0]?) hc')
  cases hsame
  exact Mirrors.bind_of_eq (readName_eq hcalls hbyte hname) (readName_eq hcalls' hbyte' hv') hg

/-- The distance of a jump is read. -/
theorem bind_short (hi : m.Faces P m' f f' i i') (hrefers : i.op.refers = false) {high low : UInt8}
    (hoperands : i.operands = [high, low]) {g g' : Nat → Exec Unit}
    (hg : Mirrors (g (distanceOf high low)) (g' (distanceOf high low)) (m.moveTo (f.ip + 3))
      (m'.moveTo (f'.ip + 3)) T) :
    Mirrors (readShort >>= g) (readShort >>= g') (m.moveTo (f.ip + 1))
      (m'.moveTo (f'.ip + 1)) T := by
  simp only [readShort, bind_assoc, pure_bind]
  refine hi.bind_byte (k := 0) (congrArg (·[0]?) hoperands) (.inl hrefers) ?_
  exact hi.bind_byte (k := 1) (congrArg (·[1]?) hoperands) (.inl hrefers) hg

end Machine.Faces

/-! ## Instructions -/

namespace Exec

variable {P : Pairing} {n : Nat} {m m' : Machine} {f f' : Frame} {i i' : Instruction}
  {rest rest' : List Frame}

theorem Mirrors.weaken {α : Type} {x y : Exec α}
    (h : Mirrors x y m m' fun _ _ k k' => k.InStep P n k') :
    Mirrors x y m m' fun _ _ k k' => k.InStep P 0 k' :=
  h.imp fun _ _ _ _ hk => hk.mono (Nat.zero_le _)

theorem proceed_mirrors {x y : Exec Unit} (h : Mirrors x y m m' fun _ _ k k' => k.InStep P 0 k') :
    Mirrors (proceed x) (proceed y) m m' fun o o' k k' => (o = none ∧ o' = none) ∧
      k.InStep P 0 k' :=
  h.bind fun _ _ _ _ hk => Mirrors.pure ⟨⟨rfl, rfl⟩, hk⟩

/-! ### Operators -/

/-- An operator on corresponding values gives the same scalar on both machines. -/
theorem applyUnary_mirrors {op : Value → Except ValueError Value}
    (hop : ∀ {v v'}, v.Renamed P.toRenaming v' → op v = op v')
    (hscalar : ∀ a v, op a = .ok v → v.isScalar = true) (h : m.InStep P (n + 1) m') :
    Mirrors (applyUnary op) (applyUnary op) m m' fun _ _ k k' => k.InStep P 0 k' := by
  refine (pop_mirrors h).bind ?_
  rintro v v' k k' ⟨hv, hk⟩
  rw [hop hv]
  refine (Mirrors.ofOperator (Q := fun w w' l l' => (w = w' ∧ w.isScalar = true) ∧ l = k ∧ l' = k')
    fun w hw => ⟨⟨rfl, hscalar _ _ hw⟩, rfl, rfl⟩).bind ?_
  rintro w _ _ _ ⟨⟨rfl, hw⟩, rfl, rfl⟩
  exact (push_mirrors hk (.fixed (Value.isFixed_of_isScalar hw))).weaken

/-- An operator on two pairs of corresponding values gives the same scalar on both machines. -/
theorem applyBinary_mirrors {op : Value → Value → Except ValueError Value}
    (hop : ∀ {v v' w w'}, v.Renamed P.toRenaming v' → w.Renamed P.toRenaming w' →
      op v w = op v' w')
    (hscalar : ∀ a b v, op a b = .ok v → v.isScalar = true) (h : m.InStep P (n + 2) m') :
    Mirrors (applyBinary op) (applyBinary op) m m' fun _ _ k k' => k.InStep P 0 k' := by
  refine (pop_mirrors h).bind ?_
  rintro w w' k k' ⟨hw, hk⟩
  refine (pop_mirrors hk).bind ?_
  rintro v v' l l' ⟨hv, hl⟩
  rw [hop hv hw]
  refine (Mirrors.ofOperator (Q := fun u u' j j' => (u = u' ∧ u.isScalar = true) ∧ j = l ∧ j' = l')
    fun u hu => ⟨⟨rfl, hscalar _ _ _ hu⟩, rfl, rfl⟩).bind ?_
  rintro u _ _ _ ⟨⟨rfl, hu⟩, rfl, rfl⟩
  exact (push_mirrors hl (.fixed (Value.isFixed_of_isScalar hu))).weaken

/-- Both machines print the same. -/
theorem print_mirrors (h : m.InStep P (n + 1) m') :
    Mirrors print print m m' fun _ _ k k' => k.InStep P 0 k' := by
  refine (pop_mirrors h).bind ?_
  rintro v v' k k' ⟨hv, hk⟩
  exact describe_mirrors .print "" hk (Value.pieces_renamed hv)

/-! ### Global variables -/

/-- Both machines define the same global variable. -/
theorem defineGlobal_mirrors (hi : m.Faces P m' f f' i i') (h : m.InStep P (n + 1) m')
    (hrefers : i.op.refers = true) {c : UInt8} {name : String} (hc : i.operands = [c])
    (hname : (chunkOf m f).constants[c.toNat]? = some (.string name)) :
    Mirrors defineGlobal defineGlobal (m.moveTo (f.ip + 1)) (m'.moveTo (f'.ip + 1))
      fun _ _ k k' => k.InStep P 0 k' := by
  refine hi.bind_name hrefers hc hname ?_
  refine (pop_mirrors (hi.moved h 2)).bind ?_
  rintro v v' k k' ⟨hv, hk⟩
  exact .of_eq rfl rfl ((hk.withGlobal name hv).mono (Nat.zero_le _))

/-- Both machines read the same global variable, or neither finds it. -/
theorem getGlobal_mirrors (hi : m.Faces P m' f f' i i') (h : m.InStep P n m')
    (hrefers : i.op.refers = true) {c : UInt8} {name : String} (hc : i.operands = [c])
    (hname : (chunkOf m f).constants[c.toNat]? = some (.string name)) :
    Mirrors getGlobal getGlobal (m.moveTo (f.ip + 1)) (m'.moveTo (f'.ip + 1))
      fun _ _ k k' => k.InStep P 0 k' := by
  refine hi.bind_name hrefers hc hname ?_
  have hmoved := hi.moved h 2
  refine Mirrors.bind_get ?_
  rcases hmoved.globals.cases name with ⟨hv, hv'⟩ | ⟨v, v', hv, hv', hsame⟩
  · rw [hv, hv']
    exact Mirrors.raise
  · rw [hv, hv']
    exact (push_mirrors hmoved hsame).weaken

/-- Both machines assign the same global variable, or neither finds it. -/
theorem setGlobal_mirrors (hi : m.Faces P m' f f' i i') (h : m.InStep P (n + 1) m')
    (hrefers : i.op.refers = true) {c : UInt8} {name : String} (hc : i.operands = [c])
    (hname : (chunkOf m f).constants[c.toNat]? = some (.string name)) :
    Mirrors setGlobal setGlobal (m.moveTo (f.ip + 1)) (m'.moveTo (f'.ip + 1))
      fun _ _ k k' => k.InStep P 0 k' := by
  refine hi.bind_name hrefers hc hname ?_
  have hmoved := hi.moved h 2
  refine Mirrors.bind_get ?_
  dsimp only
  rw [hmoved.globals.contains_eq name]
  split
  · exact Mirrors.bind_raise
  · refine (peek_mirrors hmoved (Nat.zero_lt_succ n)).bind ?_
    rintro v v' _ _ ⟨hv, rfl, rfl⟩
    exact .of_eq rfl rfl ((hmoved.withGlobal name hv).mono (Nat.zero_le _))

/-! ### Local and captured variables -/

/-- A slot that an instruction names is above the lowest one. -/
theorem slot_pos (hi : m.Faces P m' f f' i i') (hop : i.op = .getLocal ∨ i.op = .setLocal)
    {slot : UInt8} (hslot : i.operands = [slot]) : 0 < f.slots + slot.toNat := by
  by_contra hzero
  have hslots : f.slots = 0 := by omega
  refine (hi.spares hslots).names hop ?_
  rw [hslot, show slot = 0 from UInt8.toNat_inj.1 (show slot.toNat = 0 by omega)]

/-- Both machines read the same slot above the lowest one. -/
theorem getLocal_mirrors (hi : m.Faces P m' f f' i i') (h : m.InStep P n m')
    (hop : i.op = .getLocal) {slot : UInt8} (hslot : i.operands = [slot]) :
    Mirrors getLocal getLocal (m.moveTo (f.ip + 1)) (m'.moveTo (f'.ip + 1))
      fun _ _ k k' => k.InStep P 0 k' := by
  obtain ⟨rest, hcalls⟩ := hi.calls
  obtain ⟨rest', hcalls'⟩ := hi.calls'
  refine hi.bind_byte (k := 0) (congrArg (·[0]?) hslot) (.inl (hop ▸ rfl)) ?_
  refine Mirrors.bind_of_eq (frame_eq (Machine.calls_moveTo hcalls (f.ip + 2)))
    (frame_eq (Machine.calls_moveTo hcalls' (f'.ip + 2))) ?_
  have hmoved := hi.moved h 2
  dsimp only
  rw [← hi.slots]
  refine (getSlot_mirrors hmoved (slot_pos hi (.inl hop) hslot)).bind ?_
  rintro v v' _ _ ⟨hv, rfl, rfl⟩
  exact (push_mirrors hmoved hv).weaken

/-- Both machines assign the same slot above the lowest one. -/
theorem setLocal_mirrors (hi : m.Faces P m' f f' i i') (h : m.InStep P (n + 1) m')
    (hop : i.op = .setLocal) {slot : UInt8} (hslot : i.operands = [slot]) :
    Mirrors setLocal setLocal (m.moveTo (f.ip + 1)) (m'.moveTo (f'.ip + 1))
      fun _ _ k k' => k.InStep P 0 k' := by
  obtain ⟨rest, hcalls⟩ := hi.calls
  obtain ⟨rest', hcalls'⟩ := hi.calls'
  refine hi.bind_byte (k := 0) (congrArg (·[0]?) hslot) (.inl (hop ▸ rfl)) ?_
  refine Mirrors.bind_of_eq (frame_eq (Machine.calls_moveTo hcalls (f.ip + 2)))
    (frame_eq (Machine.calls_moveTo hcalls' (f'.ip + 2))) ?_
  have hmoved := hi.moved h 2
  refine (peek_mirrors hmoved (Nat.zero_lt_succ n)).bind ?_
  rintro v v' _ _ ⟨hv, rfl, rfl⟩
  dsimp only
  rw [← hi.slots]
  exact (setSlot_mirrors hmoved (slot_pos hi (.inr hop) hslot) hv).weaken

/-- The cell that an instruction names is the same. -/
theorem bind_readCell (hi : m.Faces P m' f f' i i') (h : m.InStep P n m')
    (hrefers : i.op.refers = false) {index : UInt8} (hindex : i.operands = [index])
    {g g' : CellId → Exec Unit} {T : Unit → Unit → Machine → Machine → Prop}
    (hg : ∀ id, CellId.index id < m.heap.cells.size →
      Mirrors (g id) (g' id) (m.moveTo (f.ip + 2)) (m'.moveTo (f'.ip + 2)) T) :
    Mirrors (readCell >>= g) (readCell >>= g') (m.moveTo (f.ip + 1)) (m'.moveTo (f'.ip + 1)) T := by
  obtain ⟨rest, hcalls⟩ := hi.calls
  obtain ⟨rest', hcalls'⟩ := hi.calls'
  simp only [readCell, bind_assoc]
  refine hi.bind_byte (k := 0) (congrArg (·[0]?) hindex) (.inl hrefers) ?_
  refine Mirrors.bind_of_eq (frame_eq (Machine.calls_moveTo hcalls (f.ip + 2)))
    (frame_eq (Machine.calls_moveTo hcalls' (f'.ip + 2))) ?_
  refine Mirrors.bind_heap ?_
  show Mirrors (capturedCell (m.heap.closure f.closure).captures index.toNat >>= g)
    (capturedCell (m'.heap.closure f'.closure).captures index.toNat >>= g') _ _ T
  rw [← h.captures_eq hcalls hcalls']
  refine (capturedCell_mirrors (m := m.moveTo (f.ip + 2)) (h.heap.captures f.closure)
    index.toNat).bind ?_
  rintro id _ _ _ ⟨⟨rfl, hid⟩, rfl, rfl⟩
  exact hg id hid

/-- Both machines read the same captured variable. -/
theorem getCaptured_mirrors (hi : m.Faces P m' f f' i i') (h : m.InStep P n m')
    (hrefers : i.op.refers = false) {index : UInt8} (hindex : i.operands = [index]) :
    Mirrors getCaptured getCaptured (m.moveTo (f.ip + 1)) (m'.moveTo (f'.ip + 1))
      fun _ _ k k' => k.InStep P 0 k' := by
  refine bind_readCell hi h hrefers hindex fun id hid => ?_
  have hmoved := hi.moved h 2
  refine (getCell_mirrors hmoved hid).bind ?_
  rintro v v' _ _ ⟨hv, rfl, rfl⟩
  exact (push_mirrors hmoved hv).weaken

/-- Both machines assign the same captured variable. -/
theorem setCaptured_mirrors (hi : m.Faces P m' f f' i i') (h : m.InStep P (n + 1) m')
    (hrefers : i.op.refers = false) {index : UInt8} (hindex : i.operands = [index]) :
    Mirrors setCaptured setCaptured (m.moveTo (f.ip + 1)) (m'.moveTo (f'.ip + 1))
      fun _ _ k k' => k.InStep P 0 k' := by
  refine bind_readCell hi h hrefers hindex fun id hid => ?_
  have hmoved := hi.moved h 2
  refine (peek_mirrors hmoved (Nat.zero_lt_succ n)).bind ?_
  rintro v v' _ _ ⟨hv, rfl, rfl⟩
  exact (setCell_mirrors hmoved hid hv).weaken

/-! ### Jumps -/

/-- Both machines jump by the same distance. -/
theorem jump_mirrors (hi : m.Faces P m' f f' i i') (h : m.InStep P n m')
    (hrefers : i.op.refers = false) {high low : UInt8} (hoperands : i.operands = [high, low]) :
    Mirrors jump jump (m.moveTo (f.ip + 1)) (m'.moveTo (f'.ip + 1))
      fun _ _ k k' => k.InStep P 0 k' := by
  obtain ⟨rest, hcalls⟩ := hi.calls
  obtain ⟨rest', hcalls'⟩ := hi.calls'
  refine hi.bind_short hrefers hoperands ?_
  refine Mirrors.bind_of_eq (frame_eq (Machine.calls_moveTo hcalls (f.ip + 3)))
    (frame_eq (Machine.calls_moveTo hcalls' (f'.ip + 3))) ?_
  refine .of_eq rfl rfl (Machine.InStep.mono (n := n) ?_ (Nat.zero_le _))
  exact (hi.moved h 3).moveTo (Machine.calls_moveTo hcalls (f.ip + 3))
    (Machine.calls_moveTo hcalls' (f'.ip + 3)) (by dsimp only; omega)

/-- Both machines jump, or neither does, since their values on top are both falsey or both not. -/
theorem jumpIfFalse_mirrors (hi : m.Faces P m' f f' i i') (h : m.InStep P (n + 1) m')
    (hrefers : i.op.refers = false) {high low : UInt8} (hoperands : i.operands = [high, low]) :
    Mirrors jumpIfFalse jumpIfFalse (m.moveTo (f.ip + 1)) (m'.moveTo (f'.ip + 1))
      fun _ _ k k' => k.InStep P 0 k' := by
  obtain ⟨rest, hcalls⟩ := hi.calls
  obtain ⟨rest', hcalls'⟩ := hi.calls'
  refine hi.bind_short hrefers hoperands ?_
  have hmoved := hi.moved h 3
  refine (peek_mirrors hmoved (Nat.zero_lt_succ n)).bind ?_
  rintro v v' _ _ ⟨hv, rfl, rfl⟩
  rw [hv.isFalsey_eq]
  split
  · refine Mirrors.bind_of_eq (frame_eq (Machine.calls_moveTo hcalls (f.ip + 3)))
      (frame_eq (Machine.calls_moveTo hcalls' (f'.ip + 3))) ?_
    refine .of_eq rfl rfl (Machine.InStep.mono (n := n + 1) ?_ (Nat.zero_le _))
    exact hmoved.moveTo (Machine.calls_moveTo hcalls (f.ip + 3))
      (Machine.calls_moveTo hcalls' (f'.ip + 3)) (by dsimp only; omega)
  · exact Mirrors.pure (hmoved.mono (Nat.zero_le _))

/-- Both machines jump back by the same distance. -/
theorem loop_mirrors (hi : m.Faces P m' f f' i i') (h : m.InStep P n m')
    (hrefers : i.op.refers = false) {high low : UInt8} (hoperands : i.operands = [high, low])
    (hle : distanceOf high low ≤ f.ip + 3) :
    Mirrors loop loop (m.moveTo (f.ip + 1)) (m'.moveTo (f'.ip + 1))
      fun _ _ k k' => k.InStep P 0 k' := by
  obtain ⟨rest, hcalls⟩ := hi.calls
  obtain ⟨rest', hcalls'⟩ := hi.calls'
  have hahead : f.ip ≤ f'.ip := by
    rcases h.innermost hcalls hcalls' with ⟨-, -, hf⟩ | ⟨hf, -⟩
    · exact hf.ip ▸ Nat.le_add_right _ _
    · exact Nat.le_of_eq hf.ip
  refine hi.bind_short hrefers hoperands ?_
  refine Mirrors.bind_of_eq (frame_eq (Machine.calls_moveTo hcalls (f.ip + 3)))
    (frame_eq (Machine.calls_moveTo hcalls' (f'.ip + 3))) ?_
  dsimp only
  rw [if_pos hle, if_pos (by omega)]
  refine .of_eq rfl rfl (Machine.InStep.mono (n := n) ?_ (Nat.zero_le _))
  exact (hi.moved h 3).moveTo (Machine.calls_moveTo hcalls (f.ip + 3))
    (Machine.calls_moveTo hcalls' (f'.ip + 3)) (by dsimp only; omega)

/-! ### Calls and closures -/

/-- Both machines call the value below as many arguments. -/
theorem call_mirrors (hi : m.Faces P m' f f' i i') (h : m.InStep P n m')
    (hrefers : i.op.refers = false) {count : UInt8} (hcount : i.operands = [count])
    (hn : count.toNat < n) :
    Mirrors call call (m.moveTo (f.ip + 1)) (m'.moveTo (f'.ip + 1))
      fun _ _ k k' => k.InStep P 0 k' := by
  refine hi.bind_byte (k := 0) (congrArg (·[0]?) hcount) (.inl hrefers) ?_
  have hmoved := hi.moved h 2
  refine (peek_mirrors hmoved hn).bind ?_
  rintro v v' _ _ ⟨hv, rfl, rfl⟩
  exact callValue_mirrors hmoved hn hv

/-- The cells of a new closure are the same. -/
theorem readCaptures_mirrors {base : Nat} {around found : Array CellId} {captures : List Capture}
    (h : m.InStep P n m') (hcalls : m.calls = f :: rest) (hcalls' : m'.calls = f' :: rest')
    (hbytes : ∀ {k byte}, (captureBytes captures)[k]? = some byte →
      (chunkOf m f).code[f.ip + k]? = some byte)
    (hbytes' : ∀ {k byte}, (captureBytes captures)[k]? = some byte →
      (chunkOf m' f').code[f'.ip + k]? = some byte)
    (hslots : ∀ c ∈ captures, c.isLocal = true → 0 < base + c.index.toNat)
    (haround : ∀ id ∈ around, CellId.index id < m.heap.cells.size)
    (hfound : ∀ id ∈ found, CellId.index id < m.heap.cells.size) :
    Mirrors (readCaptures base around found captures.length)
      (readCaptures base around found captures.length) m m' fun ids ids' k k' =>
        (ids = ids' ∧ ∀ id ∈ ids, CellId.index id < k.heap.cells.size) ∧
          (k.heap.functions = m.heap.functions ∧ k'.heap.functions = m'.heap.functions) ∧
          k.InStep P n k' := by
  induction captures generalizing m m' f f' found with
  | nil => exact Mirrors.pure ⟨⟨rfl, hfound⟩, ⟨rfl, rfl⟩, h⟩
  | cons c captures ih =>
    have hfirst : (captureBytes (c :: captures))[0]? = some (if c.isLocal then 1 else 0) := rfl
    have hsecond : (captureBytes (c :: captures))[1]? = some c.index := rfl
    rw [List.length_cons, readCaptures]
    refine Mirrors.bind_of_eq (readByte_eq_of_ip hcalls (hbytes hfirst))
      (readByte_eq_of_ip hcalls' (hbytes' hfirst)) ?_
    refine Mirrors.bind_of_eq (readByte_eq hcalls (hbytes hsecond))
      (readByte_eq hcalls' (hbytes' hsecond)) ?_
    have hmoved : (m.moveTo (f.ip + 1 + 1)).InStep P n (m'.moveTo (f'.ip + 1 + 1)) :=
      h.moveTo hcalls hcalls' (by omega)
    -- Once the cell of this variable is found, the others follow.
    have hnext : ∀ id k k', CellId.index id < k.heap.cells.size →
        m.heap.cells.size ≤ k.heap.cells.size → (m.moveTo (f.ip + 1 + 1)).Captures k →
        (m'.moveTo (f'.ip + 1 + 1)).Captures k' → k.InStep P n k' →
        Mirrors (readCaptures base around (found.push id) captures.length)
          (readCaptures base around (found.push id) captures.length) k k' fun ids ids' l l' =>
            (ids = ids' ∧ ∀ id ∈ ids, CellId.index id < l.heap.cells.size) ∧
              (l.heap.functions = m.heap.functions ∧ l'.heap.functions = m'.heap.functions) ∧
              l.InStep P n l' := by
      intro id k k' hid hsize hsame hsame' hk
      have hkcalls : k.calls = { f with ip := f.ip + 1 + 1 } :: rest := by
        rw [Machine.calls, hsame.frames]
        exact Machine.calls_moveTo hcalls _
      have hkcalls' : k'.calls = { f' with ip := f'.ip + 1 + 1 } :: rest' := by
        rw [Machine.calls, hsame'.frames]
        exact Machine.calls_moveTo hcalls' _
      refine (ih hk hkcalls hkcalls' ?_ ?_ (fun c' hc' => hslots c' (List.mem_cons_of_mem c hc'))
        (fun id' hid' => Nat.lt_of_lt_of_le (haround id' hid') hsize) ?_).imp ?_
      · intro j byte hj
        have hbyte := hbytes (k := j + 2) hj
        rw [chunkOf, hsame.functionOf]
        rwa [show f.ip + (j + 2) = f.ip + 1 + 1 + j by omega] at hbyte
      · intro j byte hj
        have hbyte := hbytes' (k := j + 2) hj
        rw [chunkOf, hsame'.functionOf]
        rwa [show f'.ip + (j + 2) = f'.ip + 1 + 1 + j by omega] at hbyte
      · intro id' hid'
        rcases Array.mem_push.1 hid' with hid' | rfl
        · exact Nat.lt_of_lt_of_le (hfound id' hid') hsize
        · exact hid
      · rintro ids ids' l l' ⟨hids, ⟨hfunctions, hfunctions'⟩, hl⟩
        exact ⟨hids, ⟨hfunctions.trans hsame.functions, hfunctions'.trans hsame'.functions⟩, hl⟩
    cases hlocal : c.isLocal with
    | true =>
      simp only [if_true]
      refine (captureSlot_mirrors hmoved (hslots c List.mem_cons_self hlocal)).bind ?_
      rintro id _ k k' ⟨⟨rfl, hid, hsize⟩, hsame, hsame', hk⟩
      exact hnext id k k' hid hsize hsame hsame' hk
    | false =>
      simp only [Bool.false_eq_true, if_false, show (0 : UInt8) ≠ 1 by decide]
      refine (capturedCell_mirrors (m := m.moveTo (f.ip + 1 + 1)) haround c.index.toNat).bind ?_
      rintro id _ _ _ ⟨⟨rfl, hid⟩, rfl, rfl⟩
      exact hnext id _ _ hid (Nat.le_refl _) ⟨rfl, rfl, rfl, rfl, rfl⟩ ⟨rfl, rfl, rfl, rfl, rfl⟩
        hmoved

/-- A slot that a new closure captures is above the lowest one. -/
theorem capture_pos (hi : m.Faces P m' f f' i i') (hop : i.op = .closure) {c : UInt8}
    {captures : List Capture} (hc : i.operands = c :: captureBytes captures) {capture : Capture}
    (hmem : capture ∈ captures) (hlocal : capture.isLocal = true) :
    0 < f.slots + capture.index.toNat := by
  by_contra hzero
  have hnone := (hi.spares (by omega)).captures
  rw [Instruction.takesSlot, hop, hc, List.tail_cons, bytePairs_captureBytes, List.any_map] at hnone
  have hne : ∀ d ∈ captures, d.isLocal = true → d.index.toNat ≠ 0 := by simpa using hnone
  exact hne capture hmem hlocal (by omega)

/-- A new closure has a number on each machine, and the two correspond. -/
theorem newClosure_mirrors (h : m.InStep P n m') {x y : Closure}
    (hx : x.Renamed P.toRenaming y)
    (hcaptures : ∀ id ∈ x.captures, CellId.index id < m.heap.cells.size) :
    Mirrors (allocate (·.newClosure x)) (allocate (·.newClosure y)) m m' fun d d' k k' =>
      P.closure d d' ∧ k.InStep P n k' := by
  have hpush : ∀ {closures : Array Closure} {i : Nat} {x y : Closure}, closures[i]? = some x →
      (closures.push y)[i]? = some x := by
    intro closures i x y hi
    have hlt := (Array.getElem?_eq_some_iff.1 hi).1
    rw [Array.getElem?_push, if_neg (Nat.ne_of_lt hlt), hi]
  refine .of_eq rfl rfl ⟨h.heap.next 0, h.withHeap (h.heap.newClosure hx hcaptures) (Nat.le_refl _)
    (hpush h.main) (hpush h.main')⟩

/-- A new closure is pushed. -/
theorem makeClosure_mirrors (hi : m.Faces P m' f f' i i') (h : m.InStep P n m')
    (hop : i.op = .closure) {c : UInt8} {id : FunctionId} {captures : List Capture}
    (hc : i.operands = c :: captureBytes captures)
    (hid : (chunkOf m f).constants[c.toNat]? = some (.functionRef id))
    (hcount : captures.length = (m.heap.function id).captureCount) :
    Mirrors makeClosure makeClosure (m.moveTo (f.ip + 1)) (m'.moveTo (f'.ip + 1))
      fun _ _ k k' => k.InStep P 0 k' := by
  obtain ⟨rest, hcalls⟩ := hi.calls
  obtain ⟨rest', hcalls'⟩ := hi.calls'
  refine hi.bind_constant (hop ▸ rfl) hc hid ?_
  intro v' hv
  cases hv with
  | same hnone => cases hnone
  | @functionRef _ id' hid' =>
    refine Mirrors.bind_of_eq (frame_eq (Machine.calls_moveTo hcalls (f.ip + 2)))
      (frame_eq (Machine.calls_moveTo hcalls' (f'.ip + 2))) ?_
    refine Mirrors.bind_heap (Mirrors.bind_heap ?_)
    have hmoved := hi.moved h 2
    have hcount' : (m'.heap.function id').captureCount = captures.length :=
      (h.heap.functions hid').captureCount.symm.trans hcount.symm
    show Mirrors (readCaptures f.slots (m.heap.closure f.closure).captures #[]
        (m.heap.function id).captureCount >>= _)
      (readCaptures f'.slots (m'.heap.closure f'.closure).captures #[]
        (m'.heap.function id').captureCount >>= _) _ _ _
    rw [← hcount, hcount', ← hi.slots, ← h.captures_eq hcalls hcalls']
    obtain ⟨c', _, hc', -, -⟩ := hi.exists_constant (hop ▸ rfl) hc hid
    refine (readCaptures_mirrors hmoved (Machine.calls_moveTo hcalls _)
      (Machine.calls_moveTo hcalls' _) ?_ ?_ ?_ (h.heap.captures f.closure) (by simp)).bind ?_
    · intro k byte hk
      have hbyte := hi.bytes (k := k + 1) (by rw [hc]; exact hk)
      rwa [show f.ip + 1 + (k + 1) = f.ip + 2 + k by omega] at hbyte
    · intro k byte hk
      have hbyte := hi.bytes' (k := k + 1) (by rw [hc']; exact hk)
      rwa [show f'.ip + 1 + (k + 1) = f'.ip + 2 + k by omega] at hbyte
    · exact fun capture hcapture hlocal => capture_pos hi hop hc hcapture hlocal
    rintro ids _ k k' ⟨⟨rfl, hids⟩, ⟨hfunctions, hfunctions'⟩, hk⟩
    refine (newClosure_mirrors (x := ⟨id, ids⟩) (y := ⟨id', ids⟩) hk ⟨hid', rfl⟩ hids).bind ?_
    rintro d d' l l' ⟨hd, hl⟩
    exact (push_mirrors hl (.closureRef hd)).weaken

/-! ### Classes -/

/-- Both machines make a class of the same name. -/
theorem makeClass_mirrors (hi : m.Faces P m' f f' i i') (h : m.InStep P n m')
    (hrefers : i.op.refers = true) {c : UInt8} {name : String} (hc : i.operands = [c])
    (hname : (chunkOf m f).constants[c.toNat]? = some (.string name)) :
    Mirrors makeClass makeClass (m.moveTo (f.ip + 1)) (m'.moveTo (f'.ip + 1))
      fun _ _ k k' => k.InStep P 0 k' := by
  refine hi.bind_name hrefers hc hname ?_
  have hmoved := hi.moved h 2
  have hclasses : m.heap.classes.size = m'.heap.classes.size := by
    simpa using h.heap.classes.length_eq
  have hmade := hmoved.withHeap (h.heap.newClass name) (Nat.le_refl _) h.main h.main'
  have hallocate : Mirrors (allocate (·.newClass name)) (allocate (·.newClass name))
      (m.moveTo (f.ip + 2)) (m'.moveTo (f'.ip + 2)) fun id id' k k' =>
        id = id' ∧ k.InStep P n k' :=
    .of_eq rfl rfl ⟨congrArg ClassId.mk hclasses, hmade⟩
  refine hallocate.bind ?_
  rintro id _ k k' ⟨rfl, hk⟩
  exact (push_mirrors hk (.fixed rfl)).weaken

/-- Both machines read the same property. -/
theorem getProperty_mirrors (hi : m.Faces P m' f f' i i') (h : m.InStep P (n + 1) m')
    (hrefers : i.op.refers = true) {c : UInt8} {name : String} (hc : i.operands = [c])
    (hname : (chunkOf m f).constants[c.toNat]? = some (.string name)) :
    Mirrors getProperty getProperty (m.moveTo (f.ip + 1)) (m'.moveTo (f'.ip + 1))
      fun _ _ k k' => k.InStep P 0 k' := by
  refine hi.bind_name hrefers hc hname ?_
  have hmoved := hi.moved h 2
  refine (peek_mirrors hmoved (Nat.zero_lt_succ n)).bind ?_
  rintro v v' _ _ ⟨hv, rfl, rfl⟩
  cases hv with
  | fixed _ =>
    cases v with
    | instanceRef id => exact readProperty_mirrors id name hmoved
    | _ => exact Mirrors.raise
  | _ => exact Mirrors.raise

/-- Both machines set the same field of the same instance. -/
theorem setProperty_mirrors (hi : m.Faces P m' f f' i i') (h : m.InStep P (n + 2) m')
    (hrefers : i.op.refers = true) {c : UInt8} {name : String} (hc : i.operands = [c])
    (hname : (chunkOf m f).constants[c.toNat]? = some (.string name)) :
    Mirrors setProperty setProperty (m.moveTo (f.ip + 1)) (m'.moveTo (f'.ip + 1))
      fun _ _ k k' => k.InStep P 0 k' := by
  refine hi.bind_name hrefers hc hname ?_
  refine (pop_mirrors (hi.moved h 2)).bind ?_
  rintro v v' k k' ⟨hv, hk⟩
  refine (pop_mirrors hk).bind ?_
  rintro w w' l l' ⟨hw, hl⟩
  cases hw with
  | fixed _ =>
    cases w with
    | instanceRef id =>
      have hset := hl.withHeap (hl.heap.setField id name hv) (Nat.le_refl _) hl.main hl.main'
      refine Mirrors.bind_of_eq (x := modifyHeap (·.setField id name v))
        (y := modifyHeap (·.setField id name v')) rfl rfl ?_
      exact (push_mirrors hset hv).weaken
    | _ => exact Mirrors.raise
  | _ => exact Mirrors.raise

/-- The class and the closure to be its member are the same. -/
theorem classMember_mirrors (h : m.InStep P (n + 2) m') :
    Mirrors classMember classMember m m' fun p p' k k' =>
      (p.1 = p'.1 ∧ P.closure p.2 p'.2) ∧ k = m ∧ k' = m' := by
  refine (peek_mirrors h (Nat.zero_lt_succ _)).bind ?_
  rintro v v' _ _ ⟨hv, rfl, rfl⟩
  cases hv with
  | fixed hfixed =>
    cases v with
    | closureRef _ => cases hfixed
    | _ => exact Mirrors.defect
  | @closureRef member member' hmember =>
    refine (peek_mirrors h (Nat.lt_add_left n (by decide : 1 < 2))).bind ?_
    rintro w w' _ _ ⟨hw, rfl, rfl⟩
    cases hw with
    | fixed hfixed =>
      cases w with
      | classRef id => exact Mirrors.pure ⟨⟨rfl, hmember⟩, rfl, rfl⟩
      | _ => exact Mirrors.defect
    | _ => exact Mirrors.defect
  | _ => exact Mirrors.defect

/-- A member is added to a class, if that is done to heaps alike. -/
theorem addMember_mirrors {define : Heap → ClassId → String → ClosureId → Heap}
    (hdefine : ∀ {heap heap' : Heap} {id : ClassId} {name : String} {c c' : ClosureId},
      heap.Renamed P.toRenaming heap' → P.closure c c' →
      (define heap id name c).Renamed P.toRenaming (define heap' id name c'))
    (hclosures : ∀ heap id name c, (define heap id name c).closures = heap.closures ∧
      (define heap id name c).cells = heap.cells)
    (hi : m.Faces P m' f f' i i') (h : m.InStep P (n + 2) m')
    (hrefers : i.op.refers = true) {c : UInt8} {name : String} (hc : i.operands = [c])
    (hname : (chunkOf m f).constants[c.toNat]? = some (.string name)) :
    Mirrors (addMember define) (addMember define) (m.moveTo (f.ip + 1)) (m'.moveTo (f'.ip + 1))
      fun _ _ k k' => k.InStep P 0 k' := by
  refine hi.bind_name hrefers hc hname ?_
  have hmoved := hi.moved h 2
  refine (classMember_mirrors hmoved).bind ?_
  rintro ⟨id, member⟩ ⟨_, member'⟩ _ _ ⟨⟨rfl, hmember⟩, rfl, rfl⟩
  have hheap : (define m.heap id name member).Renamed P.toRenaming
    (define m'.heap id name member') :=
    hdefine h.heap hmember
  have hdefined := hmoved.withHeap hheap
    (by rw [(hclosures _ _ _ _).2]; exact Nat.le_refl _)
      (by rw [(hclosures _ _ _ _).1]; exact h.main)
    (by rw [(hclosures _ _ _ _).1]; exact h.main')
  refine Mirrors.bind_of_eq (x := modifyHeap (define · id name member))
    (y := modifyHeap (define · id name member')) rfl rfl ?_
  exact (pop_mirrors hdefined).bind fun _ _ _ _ hpop => Mirrors.pure (hpop.2.mono (Nat.zero_le _))

/-- Both machines have the same class inherit from the same one. -/
theorem inherit_mirrors (h : m.InStep P (n + 2) m') :
    Mirrors inherit inherit m m' fun _ _ k k' => k.InStep P 0 k' := by
  refine (peek_mirrors h (Nat.zero_lt_succ _)).bind ?_
  rintro v v' _ _ ⟨hv, rfl, rfl⟩
  cases hv with
  | fixed _ =>
    cases v with
    | classRef subclass =>
      refine (peek_mirrors h (Nat.lt_add_left n (by decide : 1 < 2))).bind ?_
      rintro w w' _ _ ⟨hw, rfl, rfl⟩
      cases hw with
      | fixed _ =>
        cases w with
        | classRef superclass =>
          have hinherited := h.withHeap (h.heap.inherit subclass superclass) (Nat.le_refl _) h.main
            h.main'
          refine Mirrors.bind_of_eq (x := modifyHeap (·.inherit subclass superclass))
            (y := modifyHeap (·.inherit subclass superclass)) rfl rfl ?_
          exact (pop_mirrors hinherited).bind fun _ _ _ _ hpop =>
            Mirrors.pure (hpop.2.mono (Nat.zero_le _))
        | _ => exact Mirrors.raise
      | _ => exact Mirrors.raise
    | _ => exact Mirrors.defect
  | _ => exact Mirrors.defect

/-- Both machines take the same class off the stack. -/
theorem popClass_mirrors (h : m.InStep P (n + 1) m') :
    Mirrors popClass popClass m m' fun id id' k k' => id = id' ∧ k.InStep P n k' := by
  refine (pop_mirrors h).bind ?_
  rintro v v' k k' ⟨hv, hk⟩
  cases hv with
  | fixed _ =>
    cases v with
    | classRef id => exact Mirrors.pure ⟨rfl, hk⟩
    | _ => exact Mirrors.defect
  | _ => exact Mirrors.defect

/-- Both machines read the same property through the superclass. -/
theorem getSuper_mirrors (hi : m.Faces P m' f f' i i') (h : m.InStep P (n + 2) m')
    (hrefers : i.op.refers = true) {c : UInt8} {name : String} (hc : i.operands = [c])
    (hname : (chunkOf m f).constants[c.toNat]? = some (.string name)) :
    Mirrors getSuper getSuper (m.moveTo (f.ip + 1)) (m'.moveTo (f'.ip + 1))
      fun _ _ k k' => k.InStep P 0 k' := by
  refine hi.bind_name hrefers hc hname ?_
  refine (popClass_mirrors (hi.moved h 2)).bind ?_
  rintro superclass _ k k' ⟨rfl, hk⟩
  refine (pop_mirrors hk).bind ?_
  rintro v v' l l' ⟨hv, hl⟩
  cases hv with
  | fixed _ =>
    cases v with
    | instanceRef receiver => exact readSuperProperty_mirrors superclass receiver name hl
    | _ => exact Mirrors.defect
  | _ => exact Mirrors.defect

/-- Both machines call the same property. -/
theorem invokeProperty_mirrors (hi : m.Faces P m' f f' i i') (h : m.InStep P n m')
    (hrefers : i.op.refers = true) {c count : UInt8} {name : String} (hc : i.operands = [c, count])
    (hname : (chunkOf m f).constants[c.toNat]? = some (.string name)) (hn : count.toNat < n) :
    Mirrors invokeProperty invokeProperty (m.moveTo (f.ip + 1)) (m'.moveTo (f'.ip + 1))
      fun _ _ k k' => k.InStep P 0 k' := by
  refine hi.bind_name hrefers hc hname ?_
  refine hi.bind_byte (k := 1) (congrArg (·[1]?) hc) (.inr Nat.one_pos) ?_
  exact invoke_mirrors name (hi.moved h 3) hn

/-- Both machines call the same method of the superclass. -/
theorem invokeSuper_mirrors (hi : m.Faces P m' f f' i i') (h : m.InStep P (n + 1) m')
    (hrefers : i.op.refers = true) {c count : UInt8} {name : String} (hc : i.operands = [c, count])
    (hname : (chunkOf m f).constants[c.toNat]? = some (.string name)) (hn : count.toNat < n) :
    Mirrors invokeSuper invokeSuper (m.moveTo (f.ip + 1)) (m'.moveTo (f'.ip + 1))
      fun _ _ k k' => k.InStep P 0 k' := by
  refine hi.bind_name hrefers hc hname ?_
  refine hi.bind_byte (k := 1) (congrArg (·[1]?) hc) (.inr Nat.one_pos) ?_
  refine (popClass_mirrors (hi.moved h 3)).bind ?_
  rintro superclass _ k k' ⟨rfl, hk⟩
  exact invokeFrom_mirrors superclass name hk hn

/-! ### Arrays -/

/-- Both machines make an array of as many elements. -/
theorem arrayLiteral_mirrors (hi : m.Faces P m' f f' i i') {count : UInt8}
    (h : m.InStep P (n + count.toNat) m') (hrefers : i.op.refers = false)
    (hcount : i.operands = [count]) :
    Mirrors arrayLiteral arrayLiteral (m.moveTo (f.ip + 1)) (m'.moveTo (f'.ip + 1))
      fun _ _ k k' => k.InStep P 0 k' := by
  refine hi.bind_byte (k := 0) (congrArg (·[0]?) hcount) (.inl hrefers) ?_
  refine (popMany_mirrors (hi.moved h 2)).bind ?_
  rintro vs vs' k k' ⟨hvs, hk⟩
  refine Mirrors.bind_get ?_
  rcases hk.globals.cases "Array" with ⟨hnone, hnone'⟩ | ⟨v, v', hv, hv', hsame⟩
  · rw [hnone, hnone']
    exact Mirrors.raise
  · rw [hv, hv']
    refine (push_mirrors hk hsame).bind fun _ _ _ _ hk₁ => ?_
    refine (push_mirrors hk₁ (Value.Renamed.array_iff.2 hvs)).bind fun _ _ _ _ hk₂ => ?_
    refine (push_mirrors hk₂ (.fixed rfl)).bind fun _ _ _ _ hk₃ => ?_
    exact callValue_mirrors hk₃ (show 2 < n + 1 + 1 + 1 by omega) hsame

/-! ### All instructions -/

/-- **An instruction does the same on machines in step**, if it is before both and there are enough
values for it; instructions that leave a call are left out. -/
theorem execute_mirrors {height : Nat} (hi : m.Faces P m' f f' i i') (h : m.InStep P n m')
    (hadmits : (m.heap.functionOf f.closure).Admits m.heap height i.op i.operands)
    (htakes : i.op.takes i.operands ≤ n) (hret : i.op ≠ .ret)
    (hback : ∀ high low, i.op = .loop → i.operands = [high, low] →
      distanceOf high low ≤ f.ip + 3) :
    Mirrors (execute i.op) (execute i.op) (m.moveTo (f.ip + 1)) (m'.moveTo (f'.ip + 1))
      fun o o' k k' => (o = none ∧ o' = none) ∧ k.InStep P 0 k' := by
  have hshape := hadmits.shape
  have hmoved := hi.moved h 1
  obtain ⟨op, operands, line⟩ := i
  dsimp only at hadmits htakes hret hback hshape ⊢
  -- One lemma for each instruction. `hadmits` gives its operands their form and finds the constants
  -- they name, and `htakes` says that the values it takes are there.
  cases op with
  | ret => exact absurd rfl hret
  | uninitialized => exact Mirrors.defect
  | pushTrue => exact proceed_mirrors (push_mirrors hmoved (.fixed rfl)).weaken
  | pushFalse => exact proceed_mirrors (push_mirrors hmoved (.fixed rfl)).weaken
  | pushNil => exact proceed_mirrors (push_mirrors hmoved (.fixed rfl)).weaken
  | negate =>
    exact proceed_mirrors (applyUnary_mirrors (fun hv => hv.negate_eq)
      (fun _ _ => Value.isScalar_of_negate) (hmoved.mono htakes))
  | not =>
    exact proceed_mirrors (applyUnary_mirrors
      (fun hv => congrArg (fun b => Except.ok (Value.bool b)) hv.isFalsey_eq)
      (fun _ _ hv => Except.ok.inj hv ▸ rfl) (hmoved.mono htakes))
  | add =>
    exact proceed_mirrors (applyBinary_mirrors (fun hv hw => hv.add_eq hw)
      (fun _ _ _ => Value.isScalar_of_add) (hmoved.mono htakes))
  | subtract =>
    exact proceed_mirrors (applyBinary_mirrors (fun hv hw => hv.arithmetic_eq hw)
      (fun _ _ _ => Value.isScalar_of_arithmetic) (hmoved.mono htakes))
  | multiply =>
    exact proceed_mirrors (applyBinary_mirrors (fun hv hw => hv.arithmetic_eq hw)
      (fun _ _ _ => Value.isScalar_of_arithmetic) (hmoved.mono htakes))
  | divide =>
    exact proceed_mirrors (applyBinary_mirrors (fun hv hw => hv.divide_eq hw)
      (fun _ _ _ => Value.isScalar_of_divide) (hmoved.mono htakes))
  | less =>
    exact proceed_mirrors (applyBinary_mirrors (fun hv hw => hv.compare_eq hw)
      (fun _ _ _ => Value.isScalar_of_compare) (hmoved.mono htakes))
  | greater =>
    exact proceed_mirrors (applyBinary_mirrors (fun hv hw => hv.compare_eq hw)
      (fun _ _ _ => Value.isScalar_of_compare) (hmoved.mono htakes))
  | equal =>
    exact proceed_mirrors (applyBinary_mirrors
      (fun hv hw => congrArg (fun b => Except.ok (Value.bool b)) (hv.equals_eq hw))
      (fun _ _ _ hv => Except.ok.inj hv ▸ rfl) (hmoved.mono htakes))
  | notEqual =>
    exact proceed_mirrors (applyBinary_mirrors
      (fun hv hw => congrArg (fun b => Except.ok (Value.bool !b)) (hv.equals_eq hw))
      (fun _ _ _ hv => Except.ok.inj hv ▸ rfl) (hmoved.mono htakes))
  | print =>
    exact proceed_mirrors (print_mirrors (hmoved.mono htakes))
  | pop =>
    exact proceed_mirrors ((pop_mirrors (hmoved.mono htakes)).bind fun _ _ _ _ hpop =>
      Mirrors.pure (hpop.2.mono (Nat.zero_le _)))
  | closeUpvalue =>
    exact proceed_mirrors (dropCaptured_mirrors (hmoved.mono htakes)).weaken
  | inherit =>
    exact proceed_mirrors (inherit_mirrors (hmoved.mono htakes))
  | constant =>
    obtain ⟨c, rfl⟩ := hshape
    obtain ⟨v, hv, hliteral⟩ := hadmits
    exact proceed_mirrors (hi.bind_constant rfl rfl hv fun v' hsame =>
      (push_mirrors (hi.moved h 2) (hsame.renamed_of_isLiteral hliteral)).weaken)
  | defineGlobal =>
    obtain ⟨c, rfl⟩ := hshape
    obtain ⟨name, hname⟩ := hadmits
    exact proceed_mirrors (defineGlobal_mirrors hi (h.mono htakes) rfl rfl hname)
  | getGlobal =>
    obtain ⟨c, rfl⟩ := hshape
    obtain ⟨name, hname⟩ := hadmits
    exact proceed_mirrors (getGlobal_mirrors hi h rfl rfl hname)
  | setGlobal =>
    obtain ⟨c, rfl⟩ := hshape
    obtain ⟨name, hname⟩ := hadmits
    exact proceed_mirrors (setGlobal_mirrors hi (h.mono htakes) rfl rfl hname)
  | newClass =>
    obtain ⟨c, rfl⟩ := hshape
    obtain ⟨name, hname⟩ := hadmits
    exact proceed_mirrors (makeClass_mirrors hi h rfl rfl hname)
  | getProperty =>
    obtain ⟨c, rfl⟩ := hshape
    obtain ⟨name, hname⟩ := hadmits
    exact proceed_mirrors (getProperty_mirrors hi (h.mono htakes) rfl rfl hname)
  | setProperty =>
    obtain ⟨c, rfl⟩ := hshape
    obtain ⟨name, hname⟩ := hadmits
    exact proceed_mirrors (setProperty_mirrors hi (h.mono htakes) rfl rfl hname)
  | getSuper =>
    obtain ⟨c, rfl⟩ := hshape
    obtain ⟨name, hname⟩ := hadmits
    exact proceed_mirrors (getSuper_mirrors hi (h.mono htakes) rfl rfl hname)
  | method =>
    obtain ⟨c, rfl⟩ := hshape
    obtain ⟨name, hname⟩ := hadmits
    exact proceed_mirrors (addMember_mirrors (fun hheap hc => hheap.defineMethod _ _ hc)
      (fun _ _ _ _ => ⟨rfl, rfl⟩) hi (h.mono htakes) rfl rfl hname)
  | computedProperty =>
    obtain ⟨c, rfl⟩ := hshape
    obtain ⟨name, hname⟩ := hadmits
    exact proceed_mirrors (addMember_mirrors (fun hheap hc => hheap.defineProperty _ _ hc)
      (fun _ _ _ _ => ⟨rfl, rfl⟩) hi (h.mono htakes) rfl rfl hname)
  | getLocal =>
    obtain ⟨c, rfl⟩ := hshape
    exact proceed_mirrors (getLocal_mirrors hi h rfl rfl)
  | setLocal =>
    obtain ⟨c, rfl⟩ := hshape
    exact proceed_mirrors (setLocal_mirrors hi (h.mono htakes) rfl rfl)
  | getUpvalue =>
    obtain ⟨c, rfl⟩ := hshape
    exact proceed_mirrors (getCaptured_mirrors hi h rfl rfl)
  | setUpvalue =>
    obtain ⟨c, rfl⟩ := hshape
    exact proceed_mirrors (setCaptured_mirrors hi (h.mono htakes) rfl rfl)
  | call =>
    obtain ⟨c, rfl⟩ := hshape
    exact proceed_mirrors (call_mirrors hi h rfl rfl htakes)
  | arrayLiteral =>
    obtain ⟨c, rfl⟩ := hshape
    obtain ⟨n, rfl⟩ := Nat.exists_eq_add_of_le' htakes
    exact proceed_mirrors (arrayLiteral_mirrors hi h rfl rfl)
  | jump =>
    obtain ⟨high, low, rfl⟩ := hshape
    exact proceed_mirrors (jump_mirrors hi h rfl rfl)
  | jumpIfFalse =>
    obtain ⟨high, low, rfl⟩ := hshape
    exact proceed_mirrors (jumpIfFalse_mirrors hi (h.mono htakes) rfl rfl)
  | loop =>
    obtain ⟨high, low, rfl⟩ := hshape
    exact proceed_mirrors (loop_mirrors hi h rfl rfl (hback high low rfl rfl))
  | invoke =>
    obtain ⟨c, count, rfl⟩ := hshape
    obtain ⟨name, hname⟩ := hadmits
    exact proceed_mirrors (invokeProperty_mirrors hi h rfl rfl hname htakes)
  | invokeSuper =>
    obtain ⟨c, count, rfl⟩ := hshape
    obtain ⟨name, hname⟩ := hadmits
    obtain ⟨n, rfl⟩ := Nat.exists_eq_add_of_le' (Nat.le_trans (Nat.le_add_left 1 _) htakes)
    exact proceed_mirrors (invokeSuper_mirrors hi h rfl rfl hname (Nat.le_of_succ_le_succ htakes))
  | closure =>
    obtain ⟨c, captures, rfl⟩ := hshape
    -- The captures in the code are those that the function expects, so both closures get as many
    -- cells.
    obtain ⟨id, captures', hid, -, hbytes, hcount, -⟩ := hadmits
    rw [hbytes] at hi
    exact proceed_mirrors (makeClosure_mirrors hi h rfl rfl hid hcount)

end Exec

end ScriptVM
