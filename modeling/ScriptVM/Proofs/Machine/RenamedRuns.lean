/-
# Runs of renamed machines

Two machines in step (`Machine.InStep`) stay so, step by step, until their lowest calls come to the
end of the code that they have in common.
-/
import ScriptVM.Proofs.Machine.Changes
import ScriptVM.Proofs.Machine.RenamedInstructions

namespace ScriptVM

/-! ## Cutting code into instructions -/

/-- The bytes of a piece of code tell where its first instruction ends. -/
theorem Instruction.Formed.unique {functions : Array Function} {constants : Array Value}
    {i j : Instruction} {xs ys : List UInt8} (hi : i.Formed functions constants)
    (hj : j.Formed functions constants) (h : i.bytes ++ xs = j.bytes ++ ys) :
    i.op = j.op ∧ i.operands = j.operands ∧ xs = ys := by
  obtain ⟨op, operands, line⟩ := i
  obtain ⟨op', operands', line'⟩ := j
  rw [bytes, bytes, List.cons_append, List.cons_append, List.cons.injEq] at h
  obtain ⟨hbyte, hrest⟩ := h
  have hop : op = op' := by
    have hsame := congrArg Opcode.ofByte? hbyte
    rw [Opcode.ofByte?_toByte, Opcode.ofByte?_toByte] at hsame
    exact Option.some.inj hsame
  subst hop
  have hlength : operands.length = operands'.length := by
    unfold Formed at hi hj
    dsimp only at hi hj hrest
    split at hi
    · obtain ⟨index, rest, id, f, rfl, hid, hf, hlength⟩ := hi
      rw [if_pos ‹_›] at hj
      obtain ⟨index', rest', id', f', rfl, hid', hf', hlength'⟩ := hj
      rw [List.cons_append, List.cons_append, List.cons.injEq] at hrest
      obtain ⟨rfl, -⟩ := hrest
      rw [hid] at hid'
      cases hid'
      rw [hf] at hf'
      cases hf'
      rw [List.length_cons, List.length_cons, hlength, hlength']
    · rw [if_neg ‹_›] at hj
      exact hi.trans hj.symm
  obtain ⟨hoperands, hxs⟩ := List.append_inj hrest hlength
  exact ⟨rfl, hoperands, hxs⟩

/-- **A piece of code can be cut in one way only**: where other code with the same bytes has an
instruction, it has the same one. -/
theorem Code.exists_cut {functions : Array Function} {constants : Array Value}
    {a b front back : Code}
    {i : Instruction} {rest : List UInt8} (ha : ∀ i ∈ a, i.Formed functions constants)
    (hb : ∀ i ∈ b, i.Formed functions constants) (hbytes : Code.bytes b = Code.bytes a ++ rest)
    (hcut : b = front ++ i :: back) (hlt : Code.extent front < Code.extent a) :
    ∃ front' j back', a = front' ++ j :: back' ∧
      Code.extent front' = Code.extent front ∧ j.op = i.op ∧
      j.operands = i.operands := by
  -- The induction is on what comes before the instruction in `b`; `a` starts with the same.
  induction front generalizing a b with
  | nil =>
    cases a with
    | nil => exact absurd hlt (by simp)
    | cons j a =>
      subst hcut
      rw [List.nil_append, bytes_cons, bytes_cons, List.append_assoc] at hbytes
      obtain ⟨hop, hoperands, -⟩ := (hb i (by simp)).unique (ha j List.mem_cons_self) hbytes
      exact ⟨[], j, a, rfl, rfl, hop.symm, hoperands.symm⟩
  | cons k front ih =>
    cases a with
    | nil => exact absurd hlt (by simp)
    | cons j a =>
      subst hcut
      rw [List.cons_append, bytes_cons, bytes_cons, List.append_assoc] at hbytes
      obtain ⟨hop, hoperands, hrest⟩ := (hb k (by simp)).unique (ha j List.mem_cons_self) hbytes
      have hsize : k.size = j.size := by rw [Instruction.size, Instruction.size, hoperands]
      rw [extent_cons, extent_cons, hsize] at hlt
      obtain ⟨front', j', back', rfl, hextent, hop', hoperands'⟩ :=
        ih (fun i hi => ha i (List.mem_cons_of_mem j hi))
          (fun i hi => hb i (by simp at hi ⊢; tauto))
          hrest rfl (by omega)
      refine ⟨j :: front', j', back', rfl, ?_, hop', hoperands'⟩
      rw [extent_cons, extent_cons, hextent, hsize]

/-- An instruction whose operands are as they should be is well formed. -/
theorem Function.Admits.formed {f : Function} {heap : Heap} {height : Nat} {i : Instruction}
    (h : f.Admits heap height i.op i.operands) : i.Formed heap.functions f.chunk.constants := by
  have hshape := h.shape
  obtain ⟨op, operands, line⟩ := i
  rw [Instruction.Formed]
  dsimp only at h hshape ⊢
  split
  · next hop =>
    subst hop
    obtain ⟨c, captures, rfl⟩ := hshape
    obtain ⟨id, captures', hid, hlt, hbytes, hcount, -⟩ := h
    refine ⟨c, _, id, heap.function id, rfl, hid, ?_, ?_⟩
    · rw [Heap.function, Array.getD_eq_getD_getElem?, Array.getElem?_eq_getElem hlt]
      rfl
    · rw [hbytes, length_captureBytes, hcount]
  · next hop =>
    cases op <;> first
      | exact absurd rfl hop
      | (subst hshape; rfl)
      | (obtain ⟨c, rfl⟩ := hshape; rfl)
      | (obtain ⟨c, d, rfl⟩ := hshape; rfl)

/-- Operands that are as they should be are the same for the same constants. -/
theorem Function.Admits.renumbers {ρ : Renaming} {f : Function} {heap : Heap} {height : Nat}
    {op : Opcode} {operands : List UInt8} {K : Array Value} (h : f.Admits heap height op operands)
    (hK : List.Forall₂ (Value.Restated ρ) f.chunk.constants.toList K.toList) :
    op.Renumbers (Value.Restated ρ) f.chunk.constants K operands operands := by
  cases hrefers : op.refers with
  | false => exact .same hrefers
  | true =>
    obtain ⟨c, rest, v, rfl, hv⟩ : ∃ c rest v, operands = c :: rest ∧
        f.chunk.constants[c.toNat]? = some v := by
      have hshape := h.shape
      cases op <;> first
        | exact absurd hrefers (by decide)
        | (obtain ⟨c, rfl⟩ := hshape; obtain ⟨v, hv⟩ := h; first
            | exact ⟨c, [], _, rfl, hv⟩
            | exact ⟨c, [], _, rfl, hv.1⟩)
        | (obtain ⟨c, d, rfl⟩ := hshape; obtain ⟨v, hv⟩ := h; exact ⟨c, [d], _, rfl, hv⟩)
        | (obtain ⟨c, captures, rfl⟩ := hshape; obtain ⟨id, _, hv, -⟩ := h
           exact ⟨c, _, _, rfl, hv⟩)
    obtain ⟨hlt, hget⟩ := Array.getElem?_eq_some_iff.1 hv
    have hlength : f.chunk.constants.size = K.size := by simpa using hK.length_eq
    have hlt' : c.toNat < K.size := hlength ▸ hlt
    have hsame := hK.get (i := c.toNat) (by simpa using hlt) (by simpa using hlt')
    refine .constant hrefers hv (Array.getElem?_eq_getElem hlt') ?_
    simpa [hget] using hsame

/-! ## One step -/

/-- The code of two lowest calls has a piece in common, up to the numbers of constants. -/
structure Pairing.Aligned (P : Pairing) (heap heap' : Heap) (code : Code) : Prop where
  /-- The code of the first one starts with it. -/
  starts : ∃ rest, (heap.function P.script).chunk.code.toList = code.bytes ++ rest
  /-- It consists of instructions. -/
  formed : ∀ i ∈ code, i.Formed heap.functions (heap.function P.script).chunk.constants
  /-- Lowest calls can do it in step. -/
  spares : ∀ i ∈ code, i.Spares
  /-- The code of the second one has it at an offset. -/
  contains : ∃ front code' rest, (heap'.function P.script').chunk.code.toList
      = front ++ Code.bytes code' ++ rest ∧ front.length = P.shift ∧
    List.Forall₂ (fun i i' => i'.op = i.op ∧ i.op.Renumbers (Value.Restated P.toRenaming)
      (heap.function P.script).chunk.constants (heap'.function P.script').chunk.constants i.operands
      i'.operands) code code'

/-- Only the functions matter. -/
theorem Pairing.Aligned.congr {P : Pairing} {heap heap' k k' : Heap} {code : Code}
    (h : P.Aligned heap heap' code) (hfunctions : k.functions = heap.functions)
    (hfunctions' : k'.functions = heap'.functions) : P.Aligned k k' code := by
  have hsame : k.function = heap.function := by
    funext id
    rw [Heap.function, hfunctions]
    rfl
  have hsame' : k'.function = heap'.function := by
    funext id
    rw [Heap.function, hfunctions']
    rfl
  obtain ⟨hstarts, hformed, hspares, hcontains⟩ := h
  exact ⟨hsame ▸ hstarts, hsame ▸ hfunctions ▸ hformed, hspares, hsame ▸ hsame' ▸ hcontains⟩

/-- The instruction in the code of the second lowest call that corresponds to one of the first. -/
theorem Pairing.Aligned.exists_instruction {P : Pairing} {heap heap' : Heap} {front back : Code}
    {i : Instruction} (h : P.Aligned heap heap' (front ++ i :: back)) :
    ∃ i' : Instruction, i'.op = i.op ∧
      (∀ {k byte}, i'.bytes[k]? = some byte →
        (heap'.function P.script').chunk.code[Code.extent front + P.shift + k]? = some byte) ∧
      i.op.Renumbers (Value.Restated P.toRenaming) (heap.function P.script).chunk.constants
        (heap'.function P.script').chunk.constants i.operands i'.operands := by
  obtain ⟨pre, code', rest, hcode', hpre, hcode⟩ := h.contains
  obtain ⟨front', code'', rfl, hfront, hback⟩ := exists_append_of_forall₂ hcode.flip
  cases hback with
  | @cons i' _ back' _ hi _ =>
    refine ⟨i', hi.1, fun {k byte} hk => ?_, hi.2⟩
    have hextent : Code.extent front' = Code.extent front :=
      Code.extent_eq_of_forall₂ hfront fun _ _ hij => hij.2.length_eq.symm
    have hat : Code.extent front + P.shift = pre.length + (Code.bytes front').length := by
      rw [← hextent, hpre, Nat.add_comm]
      rfl
    rw [← Array.getElem?_toList, hcode', hat, Code.bytes_append, Code.bytes_cons]
    have hmiddle := getElem?_middle (pre ++ Code.bytes front') (Code.bytes back' ++ rest) hk
    simpa only [List.length_append, List.append_assoc] using hmiddle

/-! ## Innermost calls before the same instruction -/

namespace Machine.InStep

open Exec

variable {P : Pairing} {m m' : Machine} {f f' : Frame} {rest rest' : List Frame} {n : Nat}

/-- Lowest calls do the code of the scripts. -/
theorem functionOf_lowest (h : m.InStep P n m') (hf : f.Lowest P f') :
    m.heap.functionOf f.closure = m.heap.function P.script ∧
      m'.heap.functionOf f'.closure = m'.heap.function P.script' := by
  rw [hf.closure, hf.closure', Heap.functionOf, Heap.functionOf, Heap.closure, Heap.closure,
    Array.getD_eq_getD_getElem?, Array.getD_eq_getD_getElem?, h.main, h.main']
  exact ⟨rfl, rfl⟩

/-- **Lowest calls before an instruction of the code that they have in common** face each other. -/
theorem exists_faces (h : m.InStep P n m') (hcalls : m.calls = f :: rest)
    (hcalls' : m'.calls = f' :: rest') (hf : f.Lowest P f') {a b : Code} {i : Instruction}
    (haligned : P.Aligned m.heap m'.heap (a ++ i :: b)) (hip : f.ip = a.extent)
    (hoperands : ∀ {k byte}, i.operands[k]? = some byte →
      (chunkOf m f).code[f.ip + 1 + k]? = some byte) :
    ∃ i', m.Faces P m' f f' i i' ∧ (chunkOf m' f').code[f'.ip]? = some i.op.toByte := by
  obtain ⟨hmain, hmain'⟩ := h.functionOf_lowest hf
  obtain ⟨i', hop', hbytes', hsame⟩ := haligned.exists_instruction
  rw [← hip, ← hf.ip] at hbytes'
  refine ⟨i', {
    calls := ⟨rest, hcalls⟩
    calls' := ⟨rest', hcalls'⟩
    slots := hf.slots.trans hf.slots'.symm
    spares := fun _ => haligned.spares i (by simp)
    bytes := hoperands
    bytes' := by
      intro k byte hk
      rw [chunkOf, hmain', Nat.add_assoc, Nat.add_comm 1 k]
      exact hbytes' (k := k + 1) hk
    renumbers := by
      rw [chunkOf, chunkOf, hmain, hmain']
      exact hsame }, ?_⟩
  rw [chunkOf, hmain', ← hop']
  exact hbytes' (k := 0) rfl

/-- **Calls above the lowest ones** face each other at the instruction before which they stand. -/
theorem faces (h : m.InStep P n m') (hcalls : m.calls = f :: rest)
    (hcalls' : m'.calls = f' :: rest') (hf : f.Renamed P.toRenaming f') {height : Nat}
    {i : Instruction} (hat : (chunkOf m f).HasAt f.ip i)
    (hadmits : (m.heap.functionOf f.closure).Admits m.heap height i.op i.operands) :
    m.Faces P m' f f' i i ∧ (chunkOf m' f').code[f'.ip]? = some i.op.toByte := by
  have hfunction := h.heap.functionOf hf.closure
  have hbyte : ∀ k, (chunkOf m' f').code[f'.ip + k]? = (chunkOf m f).code[f.ip + k]? := by
    intro k
    rw [chunkOf, chunkOf, hfunction.code, hf.ip]
  refine ⟨{
    calls := ⟨rest, hcalls⟩
    calls' := ⟨rest', hcalls'⟩
    slots := hf.slots
    spares := fun hzero => absurd hf.room (by rw [hzero]; exact Nat.not_lt_zero _)
    bytes := hat.operand
    bytes' := by
      intro k byte hk
      rw [Nat.add_assoc, hbyte, ← Nat.add_assoc]
      exact hat.operand hk
    renumbers := hadmits.renumbers hfunction.constants }, (hbyte 0).trans hat.op⟩

end Machine.InStep

namespace RunsAt

open Exec

variable {P : Pairing} {W : World} {m m' : Machine} {f f' : Frame} {rest rest' : List Frame}
  {bp : Blueprint} {X below : Shape} {st : Stage} {n : Nat} {code : Code}

/-- The instruction before which a lowest call stands is one of the code that it has in common with
another. -/
theorem exists_cut (h : RunsAt W m f rest bp X below st) (haligned : P.Aligned m.heap m'.heap code)
    (hmain : m.heap.functionOf f.closure = m.heap.function P.script)
    {front back : Marks} {mark : Mark} (hmarks : bp.marks = front ++ mark :: back)
    (hbefore : front.code.extent < code.extent) :
    ∃ a j b, code = a ++ j :: b ∧ Code.extent a = front.code.extent ∧
      j.op = mark.instruction.op ∧ j.operands = mark.instruction.operands := by
  have hfits := h.fits
  obtain ⟨rest, hstarts⟩ := haligned.starts
  have hformed : ∀ i ∈ bp.marks.code, i.Formed m.heap.functions
      (m.heap.function P.script).chunk.constants := by
    intro i hi
    obtain ⟨mark', hmem, rfl⟩ := List.mem_map.1 hi
    obtain ⟨front', back', hcut⟩ := List.append_of_mem hmem
    rw [← hmain]
    exact ((hfits.leads hcut).checked h.typed.heap.table hfits.captures).1.formed
  have hbytes : bp.marks.code.bytes = code.bytes ++ rest := by
    rw [← hstarts, ← hmain]
    exact hfits.code.symm
  have hcut : bp.marks.code = front.code ++ mark.instruction :: back.code := by
    rw [hmarks, Marks.code_append, Marks.code_cons]
  exact Code.exists_cut haligned.formed hformed hbytes hcut hbefore

/-- **A step does the same on machines in step**, as long as a lowest call is within the code that
it has in common with the other. -/
theorem step_mirrors (hrun : RunsAt W m f rest bp X below st) (h : m.InStep P n m')
    (haligned : P.Aligned m.heap m'.heap code) (hbefore : rest = [] → f.ip < code.extent) :
    Mirrors step step m m' fun o o' k k' => (o = none ∧ o' = none) ∧ k.InStep P 0 k' := by
  obtain ⟨front, mark, back, hmarks, hip, hpoint⟩ := Marks.exists_cut_of_point? hrun.point
  have hfits := hrun.fits
  have hat := hfits.hasAt hmarks
  rw [← hip] at hat
  obtain ⟨hadmits, htakes, hback, -⟩ :=
    (hfits.leads hmarks).checked hrun.typed.heap.table hfits.captures
  rw [hpoint] at htakes
  have hheight : m.values.length = X.length + 1 + below.length := by
    rw [hrun.typed.length_values, List.length_append, List.length_cons]
    omega
  have hstep : m.InStep P X.length m' := { h with room := by omega }
  have hcalls := hrun.calls
  obtain ⟨f', rest', hcalls'⟩ : ∃ f' rest', m'.calls = f' :: rest' := by
    cases hframes : m'.calls with
    | nil => exact absurd h.calls.length_eq (by simp [hcalls, hframes])
    | cons f' rest' => exact ⟨f', rest', rfl⟩
  have hback' : ∀ high low, mark.instruction.op = .loop →
      mark.instruction.operands = [high, low] → distanceOf high low ≤ f.ip + 3 := by
    intro high low hop hoperands
    have hle := hback high low hop hoperands
    rwa [← hip, Instruction.size, hoperands] at hle
  rcases h.innermost hcalls hcalls' with ⟨hbottom, hbottom', hf⟩ | ⟨hf, hrest⟩
  · -- Lowest calls have a piece of code in common, whose constants have other numbers there.
    obtain ⟨a, j, b, rfl, hextent, hop, hoperands⟩ :=
      hrun.exists_cut haligned (h.functionOf_lowest hf).1 hmarks (hip ▸ hbefore hbottom)
    obtain ⟨i', hfaces, hread'⟩ := h.exists_faces hcalls hcalls' hf haligned
      (hip.trans hextent.symm) fun hk => hat.operand (hoperands ▸ hk)
    refine Mirrors.bind_of_eq (readOpcode_eq hcalls (hop ▸ hat.op))
      (readOpcode_eq hcalls' hread') ?_
    rw [← hop, ← hoperands] at hadmits htakes hback'
    exact execute_mirrors hfaces hstep hadmits htakes (haligned.spares j (by simp)).stays hback'
  · -- Calls above them run functions with the same code; only they can return.
    obtain ⟨hfaces, hread'⟩ := h.faces hcalls hcalls' hf hat hadmits
    refine Mirrors.bind_of_eq (readOpcode_eq hcalls hat.op) (readOpcode_eq hcalls' hread') ?_
    by_cases hret : mark.instruction.op = .ret
    · rw [hret]
      obtain ⟨n, hn⟩ : ∃ n, X.length = n + 1 := by
        rw [hret] at htakes
        exact Nat.exists_eq_succ_of_ne_zero (Nat.ne_of_gt htakes)
      rw [hn] at hstep
      have hlow : f.slots < m.values.length := by
        rw [hrun.slots]
        omega
      have hmoved : (m.moveTo (f.ip + 1)).InStep P (n + 1) (m'.moveTo (f'.ip + 1)) :=
        hstep.moveTo hcalls hcalls' (by omega)
      exact leave_mirrors hmoved (Machine.calls_moveTo hcalls _) (Machine.calls_moveTo hcalls' _)
        { hf with ip := congrArg (· + 1) hf.ip } hrest hlow
    · exact execute_mirrors hfaces hstep hadmits htakes hret hback'

end RunsAt

end ScriptVM
