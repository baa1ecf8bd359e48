/-
# Captured variables are shared

Each instruction takes a machine with a right ledger to one whose ledger is right again.  Most
instructions leave the cells alone and take operands only, which no cell stands for; leaving a scope
or a call closes the cells of the slots that go away; a closure finds the one cell of each variable
that it captures, or makes it.

Main statement: `Machine.Progress.Tracked.describes`.
-/
import ScriptVM.Proofs.Machine.Depth
import ScriptVM.Proofs.Machine.Ledger

namespace ScriptVM

/-! ## The next instruction of a running machine -/

namespace Machine

variable {m : Machine} {f : Frame} {rest : List Frame} {op : Opcode} {byte : UInt8} {k : Nat}

theorem kept_eq (hop : m.opcode? = some op) : m.kept = m.stack.size - m.taken op := by
  rw [kept, hop]
  rfl

theorem written?_eq_none (hop : m.opcode? = some op) (hlocal : op ≠ .setLocal)
    (hcell : op ≠ .setUpvalue) : m.written? = none := by
  rw [written?, hop]
  cases op <;> first | rfl | contradiction

end Machine

/-! ## Slots that are left alone -/

theorem Stack.toList_eq {α : Type} {capacity : Nat} (s : Stack α capacity) :
    s.toList = s.down.reverse := by
  rw [down, List.reverse_reverse]

/-- An open cell stands for none of the slots on top that no closure captures. -/
theorem At.lt_of_open {W : World} {T S : Shape} {m : Machine} (h : At W (T ++ S) m)
    (htrusted : Trusted W.stale) (hT : ∀ s ∈ T, s.captured = false) {i slot : Nat}
    (hi : m.heap.cells[i]? = some (.openAt slot)) : slot < S.length := by
  obtain ⟨-, kind, -, hslot⟩ := h.cells.opened i slot (h.heap.stale_le htrusted hi) hi
  refine Nat.lt_of_not_le fun hle => ?_
  obtain ⟨j, rfl⟩ := Nat.exists_eq_add_of_le hle
  rw [slot?_append_right] at hslot
  exact absurd (hT _ (mem_of_slot? hslot)) (by simp)

/-- The lowest values, bottom first. -/
theorem Machine.Spares.take_eq {k : Nat} {m m' : Machine} (h : m.Spares k m') :
    k ≤ m.stack.size ∧ k ≤ m'.stack.size ∧ m'.stack.toList.take k = m.stack.toList.take k := by
  obtain ⟨⟨X, Y, low, hm, hm', hlow⟩, -⟩ := h
  rw [m.size_stack, m'.size_stack, m.stack.toList_eq, m'.stack.toList_eq,
    show m.stack.down = Y ++ low from hm, show m'.stack.down = X ++ low from hm', hm, hm', ← hlow,
    ← (List.length_reverse : low.reverse.length = low.length), List.reverse_append,
      List.reverse_append, List.take_left,
    List.take_left]
  simp

namespace Ledger.Describes

variable {W : World} {T S : Shape} {L : Ledger} {m m' : Machine} {op : Opcode}

/-- An instruction that takes operands only leaves the variables below them as they are. -/
theorem keeps (hL : L.Describes m) (h : At W (T ++ S) m) (htrusted : Trusted W.stale)
    (hT : ∀ s ∈ T, s.captured = false) (hspares : m.Spares S.length m') :
    m.Keeps S.length m' := by
  obtain ⟨hle, hle', hvalues⟩ := hspares.take_eq
  refine ⟨hle, hle', hvalues, fun hi => .inl ⟨?_, ?_⟩, fun hsize hi => ?_, fun hi hj => ?_⟩
  · rw [hspares.cells, hi]
  · rintro s rfl
    exact h.lt_of_open htrusted hT hi
  · rw [hspares.cells, Array.getElem?_eq_none hsize] at hi
    cases hi
  · rw [hspares.cells] at hi hj
    exact hL.alone hi hj

/-- **An instruction that assigns nothing** and keeps the lowest slots. -/
theorem after_of_keeps (hL : L.Describes m) (hop : m.opcode? = some op) (hlocal : op ≠ .setLocal)
    (hcell : op ≠ .setUpvalue) (hkeeps : m.Keeps (m.stack.size - m.taken op) m') :
    (L.after m m').Describes m' := by
  rw [after, assign, Machine.written?_eq_none hop hlocal hcell, Machine.kept_eq hop]
  exact hL.renew hkeeps

/-- **An instruction that takes operands and assigns no variable leaves the ledger right**: the
variables of the slots that it takes or leaves end or begin. -/
theorem after_of_digs (hL : L.Describes m) (h : At W (T ++ S) m) (htrusted : Trusted W.stale)
    (hT : ∀ s ∈ T, s.captured = false) (hop : m.opcode? = some op) (hlocal : op ≠ .setLocal)
    (hcell : op ≠ .setUpvalue) (htaken : m.taken op = T.length)
    (hspares : m.Spares (m.values.length - T.length) m') : (L.after m m').Describes m' := by
  have hlength : m.values.length - T.length = S.length := by
    rw [h.length_values, List.length_append, Nat.add_sub_cancel_left]
  refine hL.after_of_keeps hop hlocal hcell ?_
  rw [htaken, m.size_stack, hlength]
  rw [hlength] at hspares
  exact hL.keeps h htrusted hT hspares

end Ledger.Describes

theorem Machine.Spares.of_moveTo {k ip : Nat} {m m' : Machine} (h : (m.moveTo ip).Spares k m') :
    m.Spares k m' :=
  ⟨h.values, h.cells⟩

theorem captured_of_mem_replicate {n : Nat} {s : Slot}
    (h : s ∈ List.replicate n Slot.operand) : s.captured = false := by
  rw [List.eq_of_mem_replicate h]

/-- A running machine with a right ledger, and where its next instruction leads. -/
structure Executes (W : World) (L : Ledger) (m : Machine) (f : Frame) (rest : List Frame)
    (bp : Blueprint) (X below : Shape) (st : Stage) (op : Opcode) (operands : List UInt8)
    (result : Option Value) (m' : Machine) : Prop where
  /-- The machine runs. -/
  runs : RunsAt W m f rest bp X below st
  /-- No cell of an earlier run is open. -/
  trusted : Trusted W.stale
  /-- The ledger is right. -/
  describes : L.Describes m
  /-- The opcode of the instruction. -/
  opcode : m.opcode? = some op
  /-- The operands of the instruction. -/
  bytes : ∀ {k byte}, operands[k]? = some byte →
    (Exec.chunkOf m f).code[f.ip + 1 + k]? = some byte
  /-- What it does. -/
  execute : Exec.execute op (m.moveTo (f.ip + 1)) = .ok result m'

namespace Executes

open Exec

variable {W : World} {L : Ledger} {m m' : Machine} {f : Frame} {rest : List Frame} {bp : Blueprint}
  {X T Y below : Shape} {st : Stage} {op : Opcode} {operands : List UInt8} {q : Point}
  {result : Option Value}

theorem operand (h : Executes W L m f rest bp X below st op operands result m') {k : Nat}
    {byte : UInt8} (hbyte : operands[k]? = some byte) : m.operand k = byte.toNat :=
  Machine.operand_eq h.runs.calls (h.bytes hbyte)

/-- An instruction that takes operands only. -/
theorem after_of_spares (h : Executes W L m f rest bp X below st op operands result m')
    (hX : X = T ++ Y) (hT : ∀ s ∈ T, s.captured = false) (hlocal : op ≠ .setLocal)
    (hcell : op ≠ .setUpvalue) (htaken : m.taken op = T.length)
    (hspares : m.Spares (m.values.length - T.length) m') : (L.after m m').Describes m' := by
  have hat := h.runs.typed
  rw [hX, List.append_assoc] at hat
  exact h.describes.after_of_digs hat h.trusted hT h.opcode hlocal hcell htaken hspares

/-- An instruction that digs no deeper than its operands leaves the ledger right. -/
theorem after_of_digs (h : Executes W L m f rest bp X below st op operands result m')
    (hX : X = T ++ Y) (hT : ∀ s ∈ T, s.captured = false) (hlocal : op ≠ .setLocal)
    (hcell : op ≠ .setUpvalue) (htaken : m.taken op = T.length) {x : Exec Unit}
    (hx : Exec.execute op = proceed x) (hdigs : Digs T.length x) :
    (L.after m m').Describes m' := by
  have hexecute := h.execute
  rw [hx] at hexecute
  exact h.after_of_spares hX hT hlocal hcell htaken (hdigs.spares (proceed_ok hexecute)).of_moveTo

/-- An instruction that takes nothing. -/
theorem after_of_digs_zero (h : Executes W L m f rest bp X below st op operands result m')
    (hlocal : op ≠ .setLocal) (hcell : op ≠ .setUpvalue) (htaken : m.taken op = 0) {x : Exec Unit}
    (hx : Exec.execute op = proceed x) (hdigs : Digs 0 x) : (L.after m m').Describes m' :=
  h.after_of_digs (T := []) (Y := X) rfl (by simp) hlocal hcell htaken hx hdigs

/-- An instruction that reads a variable. -/
theorem read {i : UInt8} {k : SlotKind} {Z : Shape}
    (h : Executes W L m f rest bp X below st op operands result m')
    (hreads : Reads (.of W m f bp) Z op i k) : (L.after m m').Describes m' := by
  cases hreads with
  | fromSlot _ => exact h.after_of_digs_zero (by simp) (by simp) rfl rfl inferInstance
  | fromCell _ => exact h.after_of_digs_zero (by simp) (by simp) rfl rfl inferInstance
  | fromGlobal _ => exact h.after_of_digs_zero (by simp) (by simp) rfl rfl inferInstance

/-- A binary operator leaves the ledger right. -/
theorem of_binary (h : Executes W L m f rest bp
    (.operand :: .operand :: Y) below st op [] result m')
    (hop : op ∈ Opcode.binaries) : (L.after m m').Describes m' := by
  have hafter : ∀ g : Value → Value → Except ValueError Value,
      Exec.execute op = proceed (applyBinary g) → m.taken op = 2 → op ≠ .setLocal →
      op ≠ .setUpvalue → (L.after m m').Describes m' := by
    intro g hx htaken hlocal hcell
    refine h.after_of_digs (T := [.operand, .operand]) rfl ?_ hlocal hcell htaken hx
      (inferInstanceAs (Digs 2 (applyBinary g)))
    intro s hs
    exact captured_of_mem_replicate (n := 2) hs
  rcases Opcode.mem_binaries.1 hop with rfl | rfl | rfl | rfl | rfl | rfl | rfl | rfl <;>
    exact hafter _ rfl rfl (by simp) (by simp)

/-- A unary operator leaves the ledger right. -/
theorem of_unary (h : Executes W L m f rest bp (.operand :: Y) below st op [] result m')
    (hop : op ∈ Opcode.unaries) : (L.after m m').Describes m' := by
  have hafter : ∀ g : Value → Except ValueError Value,
      Exec.execute op = proceed (applyUnary g) → m.taken op = 1 → op ≠ .setLocal →
      op ≠ .setUpvalue → (L.after m m').Describes m' := by
    intro g hx htaken hlocal hcell
    exact h.after_of_digs (T := [.operand]) rfl (by simp) hlocal hcell htaken hx
      (inferInstanceAs (Digs 1 (applyUnary g)))
  rcases List.mem_pair.1 hop with rfl | rfl
  · exact hafter _ rfl rfl (by simp) (by simp)
  · exact hafter _ rfl rfl (by simp) (by simp)

/-! ### Calls -/

/-- A call leaves the ledger right. -/
theorem of_call {n : UInt8}
    (h : Executes W L m f rest bp (List.replicate (n.toNat + 1) .operand ++ Y)
      below st .call [n] result m') : (L.after m m').Describes m' := by
  refine h.after_of_spares rfl (fun s hs => captured_of_mem_replicate hs) (by simp) (by simp) ?_ ?_
  · rw [List.length_replicate]
    exact congrArg (· + 1) (h.operand (k := 0) rfl)
  · rw [List.length_replicate]
    have hread := readByte_eq h.runs.calls (h.bytes (k := 0) rfl)
    refine (Digs.of_read hread ?_ (proceed_ok h.execute)).of_moveTo
    exact .after_still fun _ => inferInstance

/-- The call of a property leaves the ledger right. -/
theorem of_invoke {c n : UInt8} {name : String}
    (h : Executes W L m f rest bp
      (List.replicate (n.toNat + 1) .operand ++ Y) below st .invoke [c, n]
      result m') (hname : (Env.of W m f bp).Names c name) : (L.after m m').Describes m' := by
  refine h.after_of_spares rfl (fun s hs => captured_of_mem_replicate hs) (by simp) (by simp) ?_ ?_
  · rw [List.length_replicate]
    exact congrArg (· + 1) (h.operand (k := 1) rfl)
  · rw [List.length_replicate]
    have hread := readName_eq h.runs.calls (h.bytes (k := 0) rfl) hname
    have hnext := ok_after hread (proceed_ok h.execute)
    exact (Digs.of_read (readByte_eq h.runs.calls (h.bytes (k := 1) rfl)) inferInstance
      hnext).of_moveTo

/-- The call of a method of a superclass leaves the ledger right. -/
theorem of_invokeSuper {c n : UInt8} {name : String}
    (h : Executes W L m f rest bp
      (.temp .parent :: (List.replicate n.toNat .operand ++ .temp .receiver :: Y)) below st
      .invokeSuper [c, n] result m') (hname : (Env.of W m f bp).Names c name) :
    (L.after m m').Describes m' := by
  refine h.after_of_spares
    (T := .temp .parent :: (List.replicate n.toNat .operand ++ [.temp .receiver])) (Y := Y)
    (by simp) ?_ (by simp) (by simp) ?_ ?_
  · intro s hs
    rcases List.mem_cons.1 hs with rfl | hs
    · rfl
    · rcases List.mem_append.1 hs with hs | hs
      · exact captured_of_mem_replicate hs
      · rw [List.mem_singleton.1 hs]
  · rw [List.length_cons, List.length_append, List.length_replicate]
    exact congrArg (· + 2) (h.operand (k := 1) rfl)
  · have hread := readName_eq h.runs.calls (h.bytes (k := 0) rfl) hname
    have hnext := ok_after hread (proceed_ok h.execute)
    have hlength : (Slot.temp .parent ::
      (List.replicate n.toNat .operand ++ [.temp .receiver])).length
        = n.toNat + 1 + 1 := by simp
    rw [hlength]
    refine (Digs.of_read (readByte_eq h.runs.calls (h.bytes (k := 1) rfl)) ?_ hnext).of_moveTo
    exact .after_popClass fun _ => inferInstance

/-- An array literal leaves the ledger right. -/
theorem of_array {n : UInt8} (h : Executes W L m f rest bp (List.replicate n.toNat .operand ++ Y)
      below st .arrayLiteral [n] result m') : (L.after m m').Describes m' := by
  refine h.after_of_spares rfl (fun s hs => captured_of_mem_replicate hs) (by simp) (by simp) ?_ ?_
  · rw [List.length_replicate]
    exact h.operand (k := 0) rfl
  · rw [List.length_replicate, ← Nat.zero_add n.toNat]
    have hread := readByte_eq h.runs.calls (h.bytes (k := 0) rfl)
    refine (Digs.of_read hread ?_ (proceed_ok h.execute)).of_moveTo
    refine .after_popMany fun elements => .after_still fun m => ?_
    split
    · infer_instance
    · -- The class and its two arguments are pushed before they are taken.
      refine .after_push fun _ => .after_push fun _ => .after_push fun _ => ?_
      exact inferInstanceAs (Digs ((2 : UInt8).toNat + 1) (callValue _ 2))

end Executes

/-! ## Assignments -/

namespace Machine

variable {m : Machine} {f : Frame} {rest : List Frame} {i : UInt8}

/-- The local variable that an instruction names. -/
theorem alias?_local (h : m.calls = f :: rest) (index : Nat) :
    m.alias? true index = some (.slot (f.slots + index)) := by
  rw [alias?, top?_of_calls h]
  rfl

/-- The captured variable that an instruction names. -/
theorem alias?_captured (h : m.calls = f :: rest) {index : Nat} {id : CellId}
    (hid : (m.heap.closure f.closure).captures[index]? = some id) :
    m.alias? false index = some (.cell id) := by
  rw [alias?, top?_of_calls h]
  show ((m.heap.closure f.closure).captures[index]?).map Alias.cell = _
  rw [hid]
  rfl

end Machine

namespace Exec

variable {W : World} {m m' : Machine} {f : Frame} {rest : List Frame} {bp : Blueprint}
  {kind : SlotKind} {i : UInt8} {ip : Nat} {v : Value} {id : CellId}

/-- A captured variable is found among those of the closure, without a change. -/
theorem capturedCell_ok {captures : Array CellId} {index : Nat}
    (h : capturedCell captures index m = .ok id m') : captures[index]? = some id ∧ m' = m := by
  cases heq : captures[index]? with
  | some id' =>
    rw [capturedCell, heq] at h
    injection h with hid hm
    exact ⟨congrArg some hid, hm.symm⟩
  | none =>
    rw [capturedCell, heq] at h
    exact absurd h not_defect_ok

/-- The cell of a captured variable is the one with its number among those of the closure. -/
theorem readCell_captures (hheap : m.heap.Ok W) (hcalls : m.calls = f :: rest)
    (hbp : W.closures[f.closure.index]? = some bp) (hbyte : (chunkOf m f).code[ip]? = some i)
    (hkind : bp.captures[i.toNat]? = some kind) :
    ∃ id, (m.heap.closure f.closure).captures[i.toNat]? = some id ∧
      readCell (m.moveTo ip) = .ok id (m.moveTo (ip + 1)) ∧ W.cells[id.index]? = some kind := by
  obtain ⟨id, hread, hid⟩ := readCell_eq hheap hcalls hbp hbyte hkind
  refine ⟨id, ?_, hread, hid⟩
  have hframe := ok_after (readByte_eq hcalls hbyte) hread
  have hheap := ok_after (frame_eq (Machine.calls_moveTo hcalls (ip + 1))) hframe
  have hcaptured : capturedCell (m.heap.closure f.closure).captures i.toNat (m.moveTo (ip + 1))
      = .ok id (m.moveTo (ip + 1)) := hheap
  exact (capturedCell_ok hcaptured).1

theorem setSlot_eq {slot : Nat} (h : slot < m.stack.size) :
    setSlot slot v m = .ok () { m with stack := m.stack.replace slot v } := by
  unfold setSlot
  rw [if_pos h]

/-- A local variable is given the value on top. -/
theorem setLocal_eq (hcalls : m.calls = f :: rest)
    (hbyte : (chunkOf m f).code[f.ip + 1]? = some i) (htop : m.values[0]? = some v)
    (hlt : f.slots + i.toNat < m.stack.size) :
    setLocal (m.moveTo (f.ip + 1)) = .ok () { m.moveTo (f.ip + 2) with
      stack := m.stack.replace (f.slots + i.toNat) v } := by
  refine (bind_of_ok (readByte_eq hcalls hbyte)).trans ?_
  refine (bind_of_ok (frame_eq (Machine.calls_moveTo hcalls (f.ip + 2)))).trans ?_
  refine (bind_of_ok (peek_eq (m := m.moveTo (f.ip + 2)) htop)).trans ?_
  exact setSlot_eq (m := m.moveTo (f.ip + 2)) hlt

/-- An open cell is assigned in its slot. -/
theorem setCell_of_open {slot : Nat} (hcell : m.heap.cell id = .openAt slot)
    (hlt : slot < m.stack.size) :
    setCell id v m = .ok () { m with stack := m.stack.replace slot v } := by
  refine (bind_of_ok (x := heap) rfl).trans ?_
  rw [hcell]
  exact setSlot_eq hlt

/-- A closed cell is assigned in place. -/
theorem setCell_of_closed {w : Value} (hcell : m.heap.cell id = .closed w) :
    setCell id v m = .ok () { m with heap := m.heap.setCell id (.closed v) } := by
  refine (bind_of_ok (x := heap) rfl).trans ?_
  rw [hcell]
  rfl

end Exec

/-- The variable that the next instruction assigns is given the value on top. -/
theorem Ledger.assign_eq {L : Ledger} {m : Machine} {a : Alias} {v : Value}
    (ha : m.written? = some a) (hv : m.values[0]? = some v) : L.assign m = L.write a v := by
  have htop : m.stack.top? = some v := by
    rw [Stack.top?_eq_head?, List.head?_eq_getElem?]
    exact hv
  rw [Ledger.assign, ha, htop]

namespace Ledger.Describes

variable {L : Ledger} {m m' : Machine}

/-- A machine keeps all its slots. -/
theorem keeps_self (h : L.Describes m) : m.Keeps m.stack.size m := by
  refine ⟨Nat.le_refl _, Nat.le_refl _, rfl, fun hi => .inl ⟨hi, ?_⟩, fun hsize hi => ?_, h.alone⟩
  · rintro s rfl
    obtain ⟨x, -, hsx⟩ := h.opened hi
    have hlt := (List.getElem?_eq_some_iff.1 hsx).1
    rwa [h.length_owners] at hlt
  · rw [Array.getElem?_eq_none hsize] at hi
    cases hi

/-- **An assignment** begins no variable. -/
theorem after_of_assign (h : (L.assign m).Describes m') (hkept : m.kept = m'.stack.size) :
    (L.after m m').Describes m' := by
  rw [after, hkept]
  exact h.renew h.keeps_self

/-- The slot that an alias stands for is assigned. -/
theorem writeSlot (h : L.Describes m) {a : Alias} {s x : Nat} {v : Value} (ha : L.varOf? a = some x)
    (hs : L.owners[s]? = some x) :
    (L.write a v).Describes { m with stack := m.stack.replace s v } := by
  have hlt := (List.getElem?_eq_some_iff.1 hs).1
  rw [h.length_owners, ← Stack.length_toList] at hlt
  have hw := h.slot hs (List.getElem?_eq_getElem hlt)
  rw [write, ha]
  exact h.assignSlot hs hw

end Ledger.Describes

namespace Executes

open Exec

variable {W : World} {L : Ledger} {m m' : Machine} {f : Frame} {rest : List Frame} {bp : Blueprint}
  {X Y below : Shape} {st : Stage} {op : Opcode} {operands : List UInt8} {i : UInt8}
  {result : Option Value}

/-- **The assignment of a local variable leaves the ledger right**. -/
theorem of_setLocal {s : Slot}
    (h : Executes W L m f rest bp (.operand :: Y) below st .setLocal [i] result m')
    (hs : slot? (Y ++ [bp.receiver]) i.toNat = some s) : (L.after m m').Describes m' := by
  have hslot := h.runs.slot (slot?_append_of_some (X := [.operand]) hs)
  have hlt : f.slots + i.toNat < m.stack.size := by
    rw [m.size_stack, h.runs.typed.length_values]
    exact lt_length_of_slot? hslot
  obtain ⟨v, hv, -⟩ := h.runs.typed.value (n := 0) rfl
  -- The instruction writes the value on top to the slot.
  have hset := setLocal_eq h.runs.calls (h.bytes (k := 0) rfl) hv hlt
  injection hset.symm.trans (proceed_ok h.execute) with _ hm
  subst hm
  have hwritten : m.written? = some (.slot (f.slots + i.toNat)) := by
    rw [Machine.written?, h.opcode, h.operand (k := 0) rfl]
    exact Machine.alias?_local h.runs.calls _
  obtain ⟨x, hx⟩ := h.describes.exists_owner hlt
  refine Ledger.Describes.after_of_assign ?_ ?_
  · rw [Ledger.assign_eq hwritten hv]
    exact (h.describes.writeSlot (a := .slot _) hx hx).congr rfl rfl
  · rw [Machine.kept_eq h.opcode]
    exact (Stack.size_replace ..).symm

/-- **The assignment of a captured variable leaves the ledger right**, whether it still has its slot
or not. -/
theorem of_setUpvalue
    (h : Executes W L m f rest bp (.operand :: Y) below st .setUpvalue [i] result m')
    (hk : bp.captures[i.toNat]? = some .value) : (L.after m m').Describes m' := by
  obtain ⟨id, hid, hread, hkind⟩ := readCell_captures h.runs.typed.heap h.runs.calls
    h.runs.function (h.bytes (k := 0) rfl) hk
  obtain ⟨v, hv, -⟩ := h.runs.typed.value (n := 0) rfl
  have hget := h.runs.typed.heap.getElem?_cells hkind
  have hwritten : m.written? = some (.cell id) := by
    rw [Machine.written?, h.opcode, h.operand (k := 0) rfl]
    exact Machine.alias?_captured h.runs.calls hid
  have hpeek := ok_after hread (proceed_ok h.execute)
  have hset := ok_after (peek_eq (m := m.moveTo (f.ip + 2)) hv) hpeek
  have hassign : L.assign m = L.write (.cell id) v := Ledger.assign_eq hwritten hv
  -- An open cell stands for its slot, whose variable is written; a closed one has a variable of its
  -- own.
  cases hcell : m.heap.cell id with
  | openAt slot =>
    rw [hcell] at hget
    obtain ⟨x, hx, hsx⟩ := h.describes.opened hget
    have hlt := (List.getElem?_eq_some_iff.1 hsx).1
    rw [h.describes.length_owners] at hlt
    injection hset.symm.trans (setCell_of_open (m := m.moveTo (f.ip + 2)) hcell hlt) with _ hm
    subst hm
    refine Ledger.Describes.after_of_assign ?_ ?_
    · rw [hassign]
      exact (h.describes.writeSlot (a := .cell id) hx hsx).congr rfl rfl
    · rw [Machine.kept_eq h.opcode]
      exact (Stack.size_replace ..).symm
  | closed w =>
    rw [hcell] at hget
    obtain ⟨x, hx, -, -⟩ := h.describes.closed hget
    injection hset.symm.trans (setCell_of_closed (m := m.moveTo (f.ip + 2)) hcell) with _ hm
    subst hm
    refine Ledger.Describes.after_of_assign ?_ (Machine.kept_eq h.opcode)
    have hwrite : L.write (.cell id) v = { L with contents := L.contents.set x v } := by
      rw [Ledger.write, show L.varOf? (.cell id) = some x from hx]
    rw [hassign, hwrite]
    exact (h.describes.assignCell hget hx).congr rfl rfl

end Executes

/-! ## Slots that go away -/

/-- **The cells of the slots above** take their values over; the others stay as they are. -/
theorem At.closes {W : World} {T S : Shape} {m : Machine} (h : At W (T ++ S) m)
    (htrusted : Trusted W.stale) {i : Nat} {c : Cell} (hi : m.heap.cells[i]? = some c) :
    (m.closeCells S.length).heap.cells[i]? = some c ∧ (∀ s, c = .openAt s → s < S.length) ∨
      ∃ s v, c = .openAt s ∧ S.length ≤ s ∧ m.stack.toList[s]? = some v ∧
        (m.closeCells S.length).heap.cells[i]? = some (.closed v) := by
  have hget : (m.closeCells S.length).heap.cells[i]?
      = some (if ⟨i⟩ ∈ m.closing S.length then c.close m.stack else c) := by
    show ((m.closing S.length).foldl (Machine.closeCell m.stack) m.heap).cells[i]? = _
    rw [Machine.getElem?_closeAll, hi]
    rfl
  cases c with
  | closed v =>
    refine .inl ⟨?_, by simp⟩
    rw [hget]
    split <;> rfl
  | openAt s =>
    obtain ⟨hmem, kind, -, hslot⟩ := h.cells.opened i s (h.heap.stale_le htrusted hi) hi
    have hcell : m.heap.cell ⟨i⟩ = .openAt s := by
      rw [Heap.cell, Array.getD_eq_getD_getElem?, hi]
      rfl
    have hclosing : ⟨i⟩ ∈ m.closing S.length ↔ S.length ≤ s := by
      rw [Machine.mem_closing, Machine.opensAbove, hcell]
      simp [Cell.slot?, hmem]
    by_cases hle : S.length ≤ s
    · -- The slot is one of those that go away, and there is a value in it.
      have hlt : s < m.stack.toList.length := by
        rw [Stack.length_toList, m.size_stack, h.length_values]
        exact lt_length_of_slot? hslot
      have hvalue : m.stack.toList[s]? = some (m.stack.items.getD s .nil) := by
        rw [Array.getD_eq_getD_getElem?, ← Array.getElem?_toList]
        show m.stack.toList[s]? = some ((m.stack.toList[s]?).getD _)
        rw [List.getElem?_eq_getElem hlt]
        rfl
      refine .inr ⟨s, _, rfl, hle, hvalue, ?_⟩
      rw [hget, if_pos (hclosing.2 hle)]
      rfl
    · refine .inl ⟨?_, ?_⟩
      · rw [hget, if_neg (hclosing.not.2 hle)]
      · rintro s' hs'
        obtain rfl := Cell.openAt.inj hs'
        omega

/-- The slots above go away together with operands below them, and their cells are closed. -/
theorem Ledger.Describes.keeps_of_closing {W : World} {U T S : Shape} {L : Ledger}
    {m n m' : Machine} (hL : L.Describes m) (h : At W (U ++ (T ++ S)) n)
    (htrusted : Trusted W.stale) (hT : ∀ s ∈ T, s.captured = false)
    (hcells : m.heap.cells = n.heap.cells)
    (hcells' : m'.heap.cells = (n.closeCells (T ++ S).length).heap.cells)
    (hvalues : n.stack.toList <+: m.stack.toList) (hle : S.length ≤ m'.stack.size)
    (htake : m'.stack.toList.take S.length = m.stack.toList.take S.length) :
    m.Keeps S.length m' := by
  have hsize : m'.heap.cells.size ≤ m.heap.cells.size := by
    refine Nat.le_of_not_lt fun hlt => ?_
    have hget := Array.getElem?_eq_getElem hlt
    have hnone : m'.heap.cells[m.heap.cells.size]? = none := by
      rw [hcells', hcells]
      show ((n.closing (T ++ S).length).foldl _ n.heap).cells[_]? = none
      rw [Machine.getElem?_closeAll, Array.getElem?_eq_none (Nat.le_refl _)]
      rfl
    rw [hnone] at hget
    cases hget
  have hcloses : ∀ {i : Nat} {c : Cell}, m.heap.cells[i]? = some c →
      m'.heap.cells[i]? = some c ∧ (∀ s, c = .openAt s → s < S.length) ∨
        ∃ s v, c = .openAt s ∧ S.length ≤ s ∧ m.stack.toList[s]? = some v ∧
          m'.heap.cells[i]? = some (.closed v) := by
    intro i c hi
    rw [hcells] at hi
    rw [hcells']
    rcases h.closes htrusted hi with ⟨hsame, hbelow⟩ | ⟨s, v, hopen, hs, hv, hclosed⟩
    · refine .inl ⟨hsame, ?_⟩
      rintro s rfl
      -- The slot is below those that go away, and none of the operands.
      obtain ⟨-, kind, -, hslot⟩ := h.cells.opened i s (h.heap.stale_le htrusted hi) hi
      rw [slot?_append (hbelow s rfl)] at hslot
      refine Nat.lt_of_not_le fun hle => ?_
      obtain ⟨j, rfl⟩ := Nat.exists_eq_add_of_le hle
      rw [slot?_append_right] at hslot
      exact absurd (hT _ (mem_of_slot? hslot)) (by simp)
    · refine .inr ⟨s, v, hopen, ?_, getElem?_of_isPrefix hvalues hv, hclosed⟩
      rw [List.length_append] at hs
      omega
  refine ⟨?_, hle, htake, hcloses, fun hge hi => ?_, fun hi hj => ?_⟩
  · have hlength := hvalues.length_le
    rw [Stack.length_toList, Stack.length_toList, n.size_stack, h.length_values, List.length_append,
      List.length_append] at hlength
    omega
  · rw [Array.getElem?_eq_none (Nat.le_trans hsize hge)] at hi
    cases hi
  · have hopen : ∀ {i s : Nat}, m'.heap.cells[i]? = some (.openAt s) →
        m.heap.cells[i]? = some (.openAt s) := by
      intro i s hi
      have hlt := Nat.lt_of_lt_of_le (Array.getElem?_eq_some_iff.1 hi).1 hsize
      rcases hcloses (Array.getElem?_eq_getElem hlt) with ⟨hsame, -⟩ | ⟨_, v, -, -, -, hclosed⟩
      · rw [Array.getElem?_eq_getElem hlt, ← hsame, hi]
      · rw [hi] at hclosed
        cases hclosed
    exact hL.alone (hopen hi) (hopen hj)

/-- The slots that wait below a call to be taken with its result. -/
theorem Waits.exists_waiting {W : World} {r : Resume} {rest : List Frame} {below : Shape}
    (h : Waits W r.trade? rest below) :
    ∃ T S, below = T ++ S ∧ T.length = r.waiting ∧ ∀ s ∈ T, s.captured = false := by
  cases r with
  | finish =>
    cases h
    exact ⟨[], [], rfl, rfl, by simp⟩
  | caller => exact ⟨[], below, rfl, rfl, by simp⟩
  | superProperty => exact ⟨[], below, rfl, rfl, by simp⟩
  | description pending => exact ⟨[], below, rfl, rfl, by simp⟩
  | property =>
    cases h with
    | call _ _ _ _ => exact ⟨[.operand], _, rfl, rfl, by simp⟩
  | invocation arguments =>
    cases h with
    | call _ _ _ _ =>
      exact ⟨_, _, rfl, List.length_replicate, fun s hs => captured_of_mem_replicate hs⟩

/-- A captured variable is dropped once its cell has been closed. -/
theorem Exec.dropCaptured_ok {m m' : Machine} {u : Unit} (h : dropCaptured m = .ok u m') :
    ∃ v, pop (m.closeCells (m.stack.size - 1)) = .ok v m' := by
  have hclose : (closeCells (m.stack.size - 1) >>= fun _ => pop >>= fun _ => pure ()) m
      = .ok u m' := h
  obtain ⟨_, _, hmodify, hrest⟩ := exists_of_bind_ok hclose
  injection hmodify with _ hm
  subst hm
  exact drop_ok hrest

/-- What is done with a result reaches no deeper than the slots that wait for it. -/
theorem Exec.resume_digs (v : Value) (r : Resume) : Digs r.waiting (resume v r) := by
  cases r with
  | finish => exact inferInstanceAs (Digs 0 (pure (some v)))
  | caller => exact .after_push fun _ => inferInstance
  | superProperty => exact .after_push fun _ => inferInstance
  | property => exact .then_still (inferInstanceAs (Digs 1 (replaceTop v)))
  | invocation arguments =>
    exact .then_still (inferInstanceAs (Digs (arguments.toNat + 1) (callInstead v arguments)))
  | description pending =>
    exact .after_still fun _ => .then_still (inferInstanceAs (Digs 0 (describe _ _ _)))

namespace Executes

open Exec

variable {W : World} {L : Ledger} {m m' : Machine} {f : Frame} {rest : List Frame} {bp : Blueprint}
  {Y below : Shape} {s : Slot} {st : Stage} {result : Option Value}

/-- A variable that may be captured goes out of scope. -/
theorem of_closeUpvalue
    (h : Executes W L m f rest bp (s :: Y) below st .closeUpvalue [] result m') :
    (L.after m m').Describes m' := by
  have hat := h.runs.typed
  have hlength := hat.length_values
  rw [List.cons_append, List.length_cons] at hlength
  obtain ⟨v, hpop⟩ := dropCaptured_ok (proceed_ok h.execute)
  obtain ⟨hvalues, hheap, -, -⟩ := pop_ok hpop
  have hvalues : m.values = v :: m'.values := hvalues
  have hsize : m.stack.size - 1 = (Y ++ bp.receiver :: below).length := by
    rw [m.size_stack]
    omega
  have hheap : m'.heap = ((m.moveTo (f.ip + 1)).closeCells (m.stack.size - 1)).heap := hheap
  rw [hsize] at hheap
  have hlist : m.stack.toList = m'.stack.toList ++ [v] := by
    rw [Stack.toList_eq, Stack.toList_eq, ← List.reverse_cons]
    exact congrArg List.reverse hvalues
  have hsize' : m'.stack.size = (Y ++ bp.receiver :: below).length := by
    rw [hvalues, List.length_cons] at hlength
    rw [m'.size_stack]
    omega
  refine h.describes.after_of_keeps h.opcode (by simp) (by simp) ?_
  rw [show m.taken .closeUpvalue = 1 from rfl, hsize]
  refine h.describes.keeps_of_closing (U := [s]) (T := []) (n := m) hat h.trusted (by simp) rfl ?_
    List.prefix_rfl ?_ ?_
  · rw [hheap]
    rfl
  · exact Nat.le_of_eq hsize'.symm
  · rw [hlist, List.take_append_of_le_length]
    rw [Stack.length_toList]
    exact Nat.le_of_eq hsize'.symm

/-- The call in progress ends. -/
theorem of_ret (h : Executes W L m f rest bp (.operand :: Y) below st .ret [] result m') :
    (L.after m m').Describes m' := by
  obtain ⟨T, S, rfl, hwaiting, hT⟩ := h.runs.waits.exists_waiting
  obtain ⟨v, values, -, hrest, hvalues⟩ := List.forall₂_cons_right_iff.1 h.runs.typed.values
  have htop : m.stack.top? = some v := by
    rw [Stack.top?_eq_head?]
    exact congrArg List.head? hvalues
  -- The call is left, and its result is put to use.
  have hunwind : unwind (m.moveTo (f.ip + 1))
      = .ok (v, f.resume) ((m.moveTo (f.ip + 1)).unwound f.slots) :=
    unwind_eq_ok (f := { f with ip := f.ip + 1 })
      (Machine.calls_moveTo h.runs.calls (f.ip + 1)) htop
  have hleave : leave (m.moveTo (f.ip + 1)) = .ok result m' := h.execute
  rw [leave_eq] at hleave
  have hresume := ok_after hunwind hleave
  have hspares := (resume_digs v f.resume).spares hresume
  -- The result is taken off before the cells are closed.
  let popped : Machine := { m.moveTo (f.ip + 1) with
    stack := m.stack.dropTop, frames := (m.moveTo (f.ip + 1)).frames.dropTop }
  have hpopped : popped.values = values := by
    show m.stack.dropTop.down = values
    rw [Stack.down_dropTop]
    exact congrArg List.tail hvalues
  have hshape : Y ++ bp.receiver :: (T ++ S) = (Y ++ [bp.receiver]) ++ (T ++ S) := by simp
  have hat : At W ((Y ++ [bp.receiver]) ++ (T ++ S)) popped := by
    rw [← hshape]
    refine ⟨h.runs.typed.heap, h.runs.typed.globals, ?_, ?_⟩
    · rw [hpopped]
      exact hrest
    · exact h.runs.typed.cells.drop (X := [.operand]) (by simp)
  obtain ⟨above, low, hcut, -, hlow⟩ := exists_append_of_forall₂ hat.values
  rw [hpopped] at hcut
  have hbelow : ((m.moveTo (f.ip + 1)).unwound f.slots).values = low :=
    Stack.down_truncate (hpopped.trans hcut) (h.runs.slots.trans hlow.length_eq.symm)
  have hwaits : low.length - f.resume.waiting = S.length := by
    rw [hlow.length_eq, List.length_append, hwaiting, Nat.add_sub_cancel_left]
  have hspares := (resume_digs v f.resume).spares hresume
  rw [hbelow, hwaits] at hspares
  obtain ⟨hle, hle', htake⟩ := hspares.take_eq
  have hprefix : ((m.moveTo (f.ip + 1)).unwound f.slots).stack.toList <+: m.stack.toList := by
    rw [Stack.toList_eq, Stack.toList_eq, show m.stack.down = _ from hvalues, hcut,
      show ((m.moveTo (f.ip + 1)).unwound f.slots).stack.down = low from hbelow, ← List.cons_append,
      List.reverse_append]
    exact List.prefix_append _ _
  have hleft : m.left = S.length := by
    rw [Machine.left, Machine.top?_of_calls h.runs.calls]
    show f.slots - f.resume.waiting = _
    rw [h.runs.slots, ← hlow.length_eq, hwaits]
  refine h.describes.after_of_keeps h.opcode (by simp) (by simp) ?_
  have hkept : m.stack.size - m.taken .ret = S.length := by
    have hsize := hprefix.length_le
    rw [Stack.length_toList, Stack.length_toList] at hsize
    show m.stack.size - (m.stack.size - m.left) = _
    rw [hleft]
    omega
  rw [hkept]
  refine h.describes.keeps_of_closing (n := popped) hat h.trusted hT rfl ?_ ?_ hle' ?_
  · rw [hspares.cells, ← h.runs.slots]
    rfl
  · rw [Stack.toList_eq, Stack.toList_eq, show m.stack.down = _ from hvalues,
      show popped.stack.down = values from hpopped, List.reverse_cons]
    exact List.prefix_append _ _
  · rw [htake]
    obtain ⟨upper, hupper⟩ := hprefix
    rw [← hupper, List.take_append_of_le_length (by rw [Stack.length_toList]; exact hle)]

end Executes

/-! ## Closures -/

/-- The open cells of a machine can be found, and no two stand for the same slot. -/
structure Machine.Indexed (m : Machine) : Prop where
  /-- The cells to be looked through are open. -/
  known : ∀ id ∈ m.openCells, m.heap.Opens id
  /-- An open cell is among them. -/
  listed : ∀ {i s : Nat}, m.heap.cells[i]? = some (.openAt s) → ⟨i⟩ ∈ m.openCells
  /-- No two cells stand for the same slot. -/
  alone : ∀ {i j s : Nat}, m.heap.cells[i]? = some (.openAt s) →
    m.heap.cells[j]? = some (.openAt s) → i = j

/-- A machine has got new open cells, and the same stack and closures otherwise. -/
structure Machine.Gathers (m m' : Machine) : Prop where
  /-- The stack is the same. -/
  stack : m'.stack = m.stack
  /-- The closures are the same. -/
  closures : m'.heap.closures = m.heap.closures
  /-- The cells stay. -/
  cells : m.heap.cells.toList <+: m'.heap.cells.toList
  /-- New cells are open. -/
  made : ∀ {i : Nat} {c : Cell}, m.heap.cells.size ≤ i → m'.heap.cells[i]? = some c →
    ∃ s, c = .openAt s

namespace Machine.Gathers

variable {m m₁ m' : Machine}

theorem refl (m : Machine) : m.Gathers m :=
  ⟨rfl, rfl, List.prefix_rfl, fun hsize hi => by rw [Array.getElem?_eq_none hsize] at hi; cases hi⟩

/-- A cell stays as it is. -/
theorem getElem? (h : m.Gathers m') {i : Nat} {c : Cell} (hi : m.heap.cells[i]? = some c) :
    m'.heap.cells[i]? = some c := by
  rw [← Array.getElem?_toList] at hi ⊢
  exact getElem?_of_isPrefix h.cells hi

/-- Cells that are gathered in two steps are gathered. -/
theorem trans (h₁ : m.Gathers m₁) (h₂ : m₁.Gathers m') : m.Gathers m' := by
  refine ⟨h₂.stack.trans h₁.stack, h₂.closures.trans h₁.closures, h₁.cells.trans h₂.cells,
    fun {i c} hsize hi => ?_⟩
  rcases Nat.lt_or_ge i m₁.heap.cells.size with hlt | hge
  · have hget := Array.getElem?_eq_getElem hlt
    rw [h₂.getElem? hget] at hi
    exact h₁.made hsize (hget.trans hi)
  · exact h₂.made hge hi

end Machine.Gathers

namespace Exec

variable {m m' : Machine} {slot : Nat} {id : CellId}

/-- **A slot is captured** by the one cell that stands for it, which is made if there is none. -/
theorem captureSlot_ok (h : m.Indexed) (hrun : captureSlot slot m = .ok id m') :
    m'.Indexed ∧ m.Gathers m' ∧ m.Captures m' ∧
      m'.heap.cells[id.index]? = some (.openAt slot) := by
  unfold captureSlot at hrun
  cases hfind : m.openCells.find? fun id => (m.heap.cell id).slot? = some slot with
  | some found =>
    rw [hfind] at hrun
    injection hrun with hid hm
    subst hid hm
    obtain ⟨s, hs⟩ := h.known found (List.mem_of_find?_eq_some hfind)
    have hcell : m.heap.cell found = .openAt s := by
      rw [Heap.cell, Array.getD_eq_getD_getElem?, hs]
      rfl
    have hslot := List.find?_some hfind
    simp only [hcell, Cell.slot?, Option.some.injEq, decide_eq_true_eq] at hslot
    exact ⟨h, .refl m, ⟨rfl, rfl, rfl, rfl, rfl⟩, hslot ▸ hs⟩
  | none =>
    rw [hfind] at hrun
    injection hrun with hid hm
    subst hid hm
    have hget : ∀ i, (m.heap.cells.push (.openAt slot))[i]?
        = if i = m.heap.cells.size then some (.openAt slot) else m.heap.cells[i]? := fun i =>
      Array.getElem?_push
    -- No other cell stands for the slot: it would have been found.
    have hnone : ∀ {i : Nat}, m.heap.cells[i]? ≠ some (.openAt slot) := by
      intro i hi
      have hmiss := List.find?_eq_none.1 hfind _ (h.listed hi)
      have hcell : m.heap.cell ⟨i⟩ = .openAt slot := by
        rw [Heap.cell, Array.getD_eq_getD_getElem?, hi]
        rfl
      rw [hcell] at hmiss
      simp [Cell.slot?] at hmiss
    refine ⟨⟨fun id hid => ?_, fun {i s} hi => ?_, fun {i j s} hi hj => ?_⟩, ⟨rfl, rfl, ?_, ?_⟩,
      ⟨rfl, rfl, rfl, rfl, rfl⟩, ?_⟩
    · rcases List.mem_cons.1 hid with rfl | hid
      · exact ⟨slot, Array.getElem?_push_size⟩
      · obtain ⟨s, hs⟩ := h.known id hid
        refine ⟨s, ?_⟩
        show (m.heap.cells.push _)[id.index]? = _
        have hlt := (Array.getElem?_eq_some_iff.1 hs).1
        rw [hget, if_neg (Nat.ne_of_lt hlt), hs]
    · have hi : (m.heap.cells.push _)[i]? = _ := hi
      rw [hget] at hi
      split at hi
      · next hnew =>
        rw [hnew]
        exact List.mem_cons_self
      · exact List.mem_cons_of_mem _ (h.listed hi)
    · have hi : (m.heap.cells.push _)[i]? = _ := hi
      have hj : (m.heap.cells.push _)[j]? = _ := hj
      rw [hget] at hi hj
      split at hi <;> split at hj
      · omega
      · obtain rfl := Cell.openAt.inj (Option.some.inj hi)
        exact absurd hj hnone
      · obtain rfl := Cell.openAt.inj (Option.some.inj hj)
        exact absurd hi hnone
      · exact h.alone hi hj
    · show _ <+: (m.heap.cells.push _).toList
      rw [Array.toList_push]
      exact List.prefix_append _ _
    · intro i c hsize hi
      have hi : (m.heap.cells.push _)[i]? = _ := hi
      rw [hget] at hi
      split at hi
      · exact ⟨slot, (Option.some.inj hi).symm⟩
      · rw [Array.getElem?_eq_none hsize] at hi
        cases hi
    · exact Array.getElem?_push_size

/-- Where the cell of a captured variable comes from: it stands for a slot of the call in progress,
or is one of its own. -/
def Origin (base : Nat) (around : Array CellId) (m : Machine) (capture : Capture) (id : CellId) :
    Prop :=
  if capture.isLocal then m.heap.cells[id.index]? = some (.openAt (base + capture.index.toNat))
  else around[capture.index.toNat]? = some id

/-- The cell of a captured variable stays where it comes from while more cells are gathered. -/
theorem Origin.gathers {base : Nat} {around : Array CellId} {capture : Capture}
    (h : Origin base around m capture id) (hm : m.Gathers m') :
      Origin base around m' capture id := by
  unfold Origin at h ⊢
  split at h
  · next hlocal =>
    rw [if_pos hlocal]
    exact hm.getElem? h
  · next hlocal =>
    rw [if_neg hlocal]
    exact h

/-- **The cells of a new closure** come from where its code says. -/
theorem readCaptures_ok {captures done : List Capture} {base : Nat} {f : Frame} {rest : List Frame}
    {around found ids : Array CellId} (h : m.Indexed) (hcalls : m.calls = f :: rest)
    (hbytes : ∀ {k byte}, (captureBytes captures)[k]? = some byte →
      (m.heap.functionOf f.closure).chunk.code[f.ip + k]? = some byte)
    (hfound : List.Forall₂ (Origin base around m) done found.toList)
    (hrun : readCaptures base around found captures.length m = .ok ids m') :
    m'.Indexed ∧ m.Gathers m' ∧
      List.Forall₂ (Origin base around m') (done ++ captures) ids.toList := by
  induction captures generalizing m f found done with
  | nil =>
    injection hrun with hids hm
    subst hids hm
    rw [List.append_nil]
    exact ⟨h, .refl m, hfound⟩
  | cons c captures ih =>
    have horigin : (captureBytes (c :: captures))[0]? = some (if c.isLocal then 1 else 0) := rfl
    have hindex : (captureBytes (c :: captures))[1]? = some c.index := rfl
    rw [List.length_cons, readCaptures] at hrun
    have hsecond := ok_after (readByte_eq_of_ip hcalls (hbytes horigin)) hrun
    have hcell := ok_after (readByte_eq hcalls (hbytes hindex)) hsecond
    have hmoved : (m.moveTo (f.ip + 1 + 1)).Indexed := ⟨h.known, h.listed, h.alone⟩
    -- Once the cell of this variable is found, the others follow.
    have hnext : ∀ id m₁, m₁.Indexed → (m.moveTo (f.ip + 1 + 1)).Gathers m₁ →
        (m.moveTo (f.ip + 1 + 1)).Captures m₁ → Origin base around m₁ c id →
        readCaptures base around (found.push id) captures.length m₁ = .ok ids m' →
        m'.Indexed ∧ m.Gathers m' ∧
          List.Forall₂ (Origin base around m') (done ++ c :: captures) ids.toList := by
      intro id m₁ hindexed hgathers hsame hid hrest
      have hgathers : m.Gathers m₁ :=
        ⟨hgathers.stack, hgathers.closures, hgathers.cells, hgathers.made⟩
      have hcalls₁ : m₁.calls = { f with ip := f.ip + 1 + 1 } :: rest := by
        rw [Machine.calls, hsame.frames]
        exact Machine.calls_moveTo hcalls (f.ip + 1 + 1)
      have hfound₁ : List.Forall₂ (Origin base around m₁) (done ++ [c]) (found.push id).toList := by
        rw [Array.toList_push]
        exact List.rel_append (hfound.imp fun _ _ hold => hold.gathers hgathers) (.cons hid .nil)
      obtain ⟨hindexed', hgathers', horigins⟩ := ih hindexed hcalls₁ (fun {k byte} hk => by
        rw [hsame.functionOf]
        have hbyte := hbytes (k := k + 2) hk
        rwa [show f.ip + (k + 2) = f.ip + 1 + 1 + k by omega] at hbyte) hfound₁ hrest
      refine ⟨hindexed', hgathers.trans hgathers', ?_⟩
      rwa [List.append_assoc] at horigins
    by_cases hlocal : c.isLocal = true
    · simp only [hlocal, if_true] at hcell
      obtain ⟨id, m₁, hcapture, hrest⟩ := exists_of_bind_ok hcell
      obtain ⟨hindexed, hgathers, hsame, hopen⟩ := captureSlot_ok hmoved hcapture
      refine hnext id m₁ hindexed hgathers hsame ?_ hrest
      rw [Origin, if_pos hlocal]
      exact hopen
    · simp only [hlocal, Bool.false_eq_true, if_false, show (0 : UInt8) ≠ 1 by decide] at hcell
      obtain ⟨id, m₁, hcaptured, hrest⟩ := exists_of_bind_ok hcell
      obtain ⟨hid, rfl⟩ := capturedCell_ok hcaptured
      refine hnext id _ hmoved (.refl _) ⟨rfl, rfl, rfl, rfl, rfl⟩ ?_ hrest
      rw [Origin, if_neg hlocal]
      exact hid

/-- A closure is made of the function and with the cells that its code says. -/
theorem makeClosure_ok {captures : List Capture} {c : UInt8} {function : FunctionId} {f : Frame}
    {rest : List Frame} {u : Unit} (h : m.Indexed) (hcalls : m.calls = f :: rest)
    (hbytes : ∀ {k byte}, (c :: captureBytes captures)[k]? = some byte →
      (chunkOf m f).code[f.ip + 1 + k]? = some byte)
    (hconstant : (chunkOf m f).constants[c.toNat]? = some (.functionRef function))
    (hcount : (m.heap.function function).captureCount = captures.length)
    (hrun : makeClosure (m.moveTo (f.ip + 1)) = .ok u m') :
    ∃ ids m₁, m₁.Indexed ∧ m.Gathers m₁ ∧ m'.heap.cells = m₁.heap.cells ∧
      m'.values = .closureRef ⟨m.heap.closures.size⟩ :: m.values ∧
      m'.heap.closures = m.heap.closures.push ⟨function, ids⟩ ∧
      List.Forall₂ (Origin f.slots (m.heap.closure f.closure).captures m₁) captures ids.toList := by
  have hindex : (chunkOf m f).code[f.ip + 1]? = some c := hbytes (k := 0) rfl
  have hmatch := ok_after (readConstant_eq hcalls hindex hconstant) hrun
  have hframe := ok_after (frame_eq (Machine.calls_moveTo hcalls (f.ip + 2))) hmatch
  have hread : (readCaptures f.slots (m.heap.closure f.closure).captures #[]
      (m.heap.function function).captureCount >>= fun captures =>
        allocate (·.newClosure ⟨function, captures⟩) >>= fun id => push (.closureRef id))
      (m.moveTo (f.ip + 2)) = .ok u m' := hframe
  obtain ⟨ids, m₁, hcaptures, hmake⟩ := exists_of_bind_ok hread
  rw [hcount] at hcaptures
  have hmoved : (m.moveTo (f.ip + 2)).Indexed := ⟨h.known, h.listed, h.alone⟩
  obtain ⟨hindexed, hgathers, horigins⟩ := readCaptures_ok hmoved
    (Machine.calls_moveTo hcalls (f.ip + 2)) (fun {k byte} hk => by
      have hbyte := hbytes (k := k + 1) hk
      rwa [show f.ip + 1 + (k + 1) = f.ip + 2 + k by omega] at hbyte) .nil hcaptures
  obtain ⟨id, m₂, hallocate, hpush⟩ := exists_of_bind_ok hmake
  injection hallocate with hid hm₂
  subst hid hm₂
  have hpushed := push_ok hpush
  have hvalues : m₁.values = m.values := congrArg Stack.down hgathers.stack
  have hclosures : m₁.heap.closures = m.heap.closures := hgathers.closures
  refine ⟨ids, m₁, hindexed, ⟨hgathers.stack, hgathers.closures, hgathers.cells, hgathers.made⟩,
    ?_, ?_, ?_, horigins⟩
  · rw [hpushed.heap]
  · rw [hpushed.values, ← hclosures]
    exact congrArg _ hvalues
  · rw [hpushed.heap, ← hclosures]

end Exec

/-- An open cell of a running machine stands for a slot. -/
theorem Machine.Running.lt_of_open {ground : Ground} {m : Machine} (h : m.Running ground)
    (htrusted : Trusted ground.stale) {i s : Nat} (hi : m.heap.cells[i]? = some (.openAt s)) :
    s < m.stack.size := by
  obtain ⟨W, f, rest, bp, X, below, st, rfl, h⟩ := h
  rw [m.size_stack, h.typed.length_values]
  exact At.lt_of_open (T := []) h.typed htrusted (by simp) hi

/-- The open cells of a typed machine can be found. -/
theorem Ledger.Describes.indexed {W : World} {S : Shape} {L : Ledger} {m : Machine}
    (hL : L.Describes m) (h : At W S m) (htrusted : Trusted W.stale) : m.Indexed where
  known id hid := (h.cells.known id hid).2
  listed hi := (h.cells.opened _ _ (h.heap.stale_le htrusted hi) hi).1
  alone := hL.alone

namespace Executes

open Exec

variable {W : World} {L : Ledger} {m m' : Machine} {f : Frame} {rest : List Frame}
  {bp g : Blueprint}
  {X Y : Shape} {below : Shape} {st : Stage} {c : UInt8} {captures : List Capture}
  {function : FunctionId} {result : Option Value}

/-- **A closure is made**: the variables stay as they are, and its cells come from where its code
says. -/
theorem of_closure
    (h : Executes W L m f rest bp X below st .closure (c :: captureBytes captures) result m')
    (hconstant : (chunkOf m f).constants[c.toNat]? = some (.functionRef function))
    (hg : W.blueprints[function.index]? = some g)
    (hsupplies : List.Forall₂ ((Env.of W m f bp).Supplies Y) captures g.captures)
    (hcontinues : m'.Continues W.toGround result) :
    (L.after m m').Describes m' ∧
      ∃ ids, m'.values = .closureRef ⟨m.heap.closures.size⟩ :: m.values ∧
        m'.heap.closures = m.heap.closures.push ⟨function, ids⟩ ∧
        List.Forall₂ (Origin f.slots (m.heap.closure f.closure).captures m') captures
          ids.toList := by
  have hrunning : m'.Running W.toGround := by
    obtain rfl := execute_eq_none (by simp) h.execute
    exact hcontinues
  have hcount : (m.heap.function function).captureCount = captures.length :=
    (hsupplies.length_eq.trans
      (TableFits.function m.heap h.runs.typed.heap.table hg).2.captures).symm
  obtain ⟨ids, m₁, hindexed, hgathers, hcells, hvalues, hclosures, horigins⟩ :=
    makeClosure_ok (h.describes.indexed h.runs.typed h.trusted) h.runs.calls h.bytes
      hconstant hcount
      (proceed_ok h.execute)
  have hlist : m'.stack.toList = m.stack.toList ++ [.closureRef ⟨m.heap.closures.size⟩] := by
    rw [Stack.toList_eq, Stack.toList_eq, ← List.reverse_cons]
    exact congrArg List.reverse hvalues
  have hsize : m'.stack.size = m.stack.size + 1 := by
    rw [m'.size_stack, hvalues, List.length_cons, m.size_stack]
  -- Old cells stay, and new ones stand for slots that had none.
  refine ⟨h.describes.after_of_keeps h.opcode (by simp) (by simp) ?_, ids, hvalues, hclosures,
    ?_⟩
  · show m.Keeps m.stack.size m'
    refine ⟨Nat.le_refl _, by omega, ?_, fun {i c} hi => .inl ⟨?_, ?_⟩, fun hge hi => ?_, ?_⟩
    · rw [hlist, ← Stack.length_toList, List.take_left, List.take_length]
    · rw [hcells]
      exact hgathers.getElem? hi
    · rintro s rfl
      exact Machine.Running.lt_of_open ⟨W, f, rest, bp, X, below, st, rfl, h.runs⟩ h.trusted hi
    · obtain ⟨s, rfl⟩ := hgathers.made hge (hcells ▸ hi)
      exact ⟨s, rfl, hrunning.lt_of_open h.trusted hi⟩
    · rw [hcells]
      exact hindexed.alone
  · refine horigins.imp fun capture id horigin => ?_
    unfold Origin at horigin ⊢
    rwa [hcells]

/-- **An instruction that goes on behind itself** takes a right ledger to a right one. -/
theorem after_of_runs {op : Opcode} {operands : List UInt8} {q : Point}
    (h : Executes W L m f rest bp X below st op operands result m')
    (hruns : Runs (.of W m f bp) [bp.receiver] op operands ⟨X, st⟩ q)
    (hcontinues : m'.Continues W.toGround result) : (L.after m m').Describes m' := by
  -- One case for each way to run an instruction. Most only take slots of temporaries and leave
  -- every local where it is (`after_of_digs`); those that read, write, close or capture a variable
  -- have lemmas of their own.
  cases hruns with
  | constant _ _ =>
    exact h.after_of_digs_zero (by simp) (by simp) rfl rfl (.after_still fun _ => inferInstance)
  | push hop =>
    rcases Opcode.mem_pushes.1 hop with rfl | rfl | rfl <;>
      exact h.after_of_digs_zero (by simp) (by simp) rfl rfl inferInstance
  | unary hop => exact h.of_unary hop
  | binary hop => exact h.of_binary hop
  | print =>
    exact h.after_of_digs (T := [.operand]) rfl (by simp) (by simp) (by simp) rfl rfl
      (inferInstanceAs (Digs 1 print))
  | @pop k X =>
    exact h.after_of_digs (T := [.temp k]) rfl (by simp) (by simp) (by simp) rfl rfl drop_digs
  | close => exact h.of_closeUpvalue
  | read hreads _ => exact h.read hreads
  | write hwrites =>
    cases hwrites with
    | toSlot hs _ => exact h.of_setLocal hs
    | toCell hk => exact h.of_setUpvalue hk
    | toGlobal _ => exact h.after_of_digs_zero (by simp) (by simp) rfl rfl inferInstance
  | define _ =>
    exact h.after_of_digs (T := [.operand]) rfl (by simp) (by simp) (by simp) rfl rfl
      (inferInstanceAs (Digs 1 defineGlobal))
  | call => exact h.of_call
  | closure hc hg _ hsupplies _ => exact (h.of_closure hc hg hsupplies hcontinues).1
  | getProperty _ =>
    exact h.after_of_digs (T := [.operand]) rfl (by simp) (by simp) (by simp) rfl rfl
      (inferInstanceAs (Digs 1 getProperty))
  | setProperty _ =>
    exact h.after_of_digs (T := [.operand, .operand]) rfl
      (fun s hs => captured_of_mem_replicate (n := 2) hs) (by simp) (by simp) rfl rfl
      (inferInstanceAs (Digs 2 setProperty))
  | invoke hname => exact h.of_invoke hname
  | readSuper hk => exact h.read (Z := X ++ [bp.receiver]) (.fromCell hk)
  | readOwn hs _ => exact h.read (.fromSlot (i := 0) hs)
  | getSuper _ =>
    exact h.after_of_digs (T := [.temp .parent, .temp .receiver]) rfl (by simp) (by simp) (by simp)
      rfl rfl (inferInstanceAs (Digs 2 getSuper))
  | invokeSuper hname => exact h.of_invokeSuper hname
  | array => exact h.of_array
  | addMember hop _ _ =>
    rcases List.mem_pair.1 hop with rfl | rfl
    · exact h.after_of_digs (T := [.temp .member]) rfl (by simp) (by simp) (by simp) rfl rfl
        (addMember_digs fun _ _ _ _ => rfl)
    · exact h.after_of_digs (T := [.temp .member]) rfl (by simp) (by simp) (by simp) rfl rfl
        (addMember_digs fun _ _ _ _ => rfl)
  | newClass _ => exact h.after_of_digs_zero (by simp) (by simp) rfl rfl inferInstance
  | defineClass _ =>
    exact h.after_of_digs (T := [.operand]) rfl (by simp) (by simp) (by simp) rfl rfl
      (inferInstanceAs (Digs 1 defineGlobal))
  | choose hreads _ _ => exact h.read hreads
  | pair hreads _ => exact h.read hreads
  | inherit =>
    exact h.after_of_digs (T := [.temp .parent]) rfl (by simp) (by simp) (by simp) rfl rfl
      (inferInstanceAs (Digs 1 Exec.inherit))
  | hold hreads _ _ => exact h.read hreads

end Executes

/-! ## Steps and runs -/

/-- What the next step of a running machine does, and where its instruction leads. -/
theorem RunsAt.executes {W : World} {L : Ledger} {m m' : Machine} {f : Frame} {rest : List Frame}
    {bp : Blueprint} {X below : Shape} {st : Stage} {result : Option Value}
    (h : RunsAt W m f rest bp X below st) (htrusted : Trusted W.stale) (hL : L.Describes m)
    (hstep : Exec.step m = .ok result m') :
    ∃ op operands next, Executes W L m f rest bp X below st op operands result m' ∧
      Leads (.of W m f bp) [bp.receiver] (bp.marks.point? none) next op operands ⟨X, st⟩ := by
  obtain ⟨i, hat, hleads⟩ := h.exists_instruction
  have hexecute := Exec.ok_after (Exec.readOpcode_eq h.calls hat.op) hstep
  exact ⟨i.op, i.operands, _, ⟨h, htrusted, hL, Machine.opcode?_eq h.calls hat.op, hat.operand,
    hexecute⟩, hleads⟩

/-- **A step takes a right ledger to a right one**, whatever the instruction. -/
theorem Ledger.Describes.after {ground : Ground} {L : Ledger} {m m' : Machine}
    {result : Option Value} (hL : L.Describes m) (h : m.Running ground)
    (htrusted : Trusted ground.stale)
    (hstep : Exec.step m = .ok result m') : (L.after m m').Describes m' := by
  have hcontinues := step_continues h
  rw [Exec.Ensures, hstep] at hcontinues
  obtain ⟨W, f, rest, bp, X, below, st, rfl, h⟩ := h
  obtain ⟨op, operands, next, hexecutes, hleads⟩ := h.executes htrusted hL hstep
  cases hleads with
  | run hruns _ => exact hexecutes.after_of_runs hruns hcontinues
  | ret _ => exact hexecutes.of_ret
  | jump _ => exact hexecutes.after_of_digs_zero (by simp) (by simp) rfl rfl inferInstance
  | jumpIfFalse _ _ => exact hexecutes.after_of_digs_zero (by simp) (by simp) rfl rfl inferInstance
  | loop _ _ => exact hexecutes.after_of_digs_zero (by simp) (by simp) rfl rfl inferInstance

/-- **The ledger of a run is right** wherever the run comes, if no cell was open at its start. -/
theorem Machine.Progress.Tracked.describes {ground : Ground} {start : Machine.Progress}
    {m : Machine} {L : Ledger} (h : start.Tracked m L) (hsound : start.Sound ground)
    (htrusted : Trusted ground.stale) (hclosed : ∀ m, start = .running m → Trusted m.heap.slots) :
    L.Describes m := by
  induction h with
  | start heq => exact .start (hclosed _ heq)
  | step htracked hstep ih => exact ih.after (hsound.visits htracked.visits) htrusted hstep
  | pause _ pause ih => exact ih.congr rfl rfl

end ScriptVM
