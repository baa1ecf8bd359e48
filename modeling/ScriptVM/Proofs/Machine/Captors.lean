/-
# Whose variables are captured

An open cell stands for a slot of a call in progress, and for one that the function of that call
captures: one of its instructions makes a closure over the local variable with that number, or over
the callee, which is the variable with number zero (`Function.Captures`).

Cells are made while such an instruction is being done, by the call that does it.  From then on the
slot belongs to that call (`CapturedIn`): new calls have only slots that the instruction does not
keep, and when a call is left the cells of its slots are closed.

Main statement: `Machine.Progress.Tracked.captured`.
-/
import ScriptVM.Proofs.Machine.Pending
import ScriptVM.Proofs.Machine.Seats

namespace ScriptVM

/-! ## Captured variables of a function -/

/-- The instruction at an offset of a function makes a closure, whose variable with number `k` is
the local variable with an index. -/
structure Function.CapturesAt (heap : Heap) (f : Function) (offset k : Nat) (index : UInt8) :
    Prop where
  /-- The instruction makes a closure. -/
  opcode : f.chunk.opcodeAt? offset = some .closure
  /-- The closure has a variable with this number. -/
  function : ∃ constant function, f.chunk.code[offset + 1]? = some constant ∧
    f.chunk.functionAt? heap constant = some function ∧ k < function.captureCount
  /-- The variable is a local one. -/
  origin : f.chunk.code[offset + 2 + 2 * k]? = some 1
  /-- It has the index. -/
  index : f.chunk.code[offset + 2 + 2 * k + 1]? = some index

/-- A function captures its local variable with an index. -/
def Function.Captures (heap : Heap) (f : Function) (index : Nat) : Prop :=
  ∃ offset k byte, f.CapturesAt heap offset k byte ∧ index = byte.toNat

/-- A stack slot belongs to one of some calls, innermost first, whose function captures the variable
in it. -/
inductive CapturedIn (heap : Heap) : List Frame → Nat → Prop
  /-- It is a slot of the first call. -/
  | own {f : Frame} {rest : List Frame} {slot : Nat} (hle : f.slots ≤ slot)
      (hknown : f.closure.index < heap.closures.size)
      (h : (heap.functionOf f.closure).Captures heap (slot - f.slots)) :
      CapturedIn heap (f :: rest) slot
  /-- It is below the slots of the first call. -/
  | outer {f : Frame} {rest : List Frame} {slot : Nat} (hlt : slot < f.slots)
      (h : CapturedIn heap rest slot) : CapturedIn heap (f :: rest) slot

/-- What a function captures depends only on the table of functions. -/
theorem Function.Captures.of_functions {heap heap' : Heap} {f : Function} {index : Nat}
    (h : f.Captures heap index) (hfunctions : heap'.functions = heap.functions) :
    f.Captures heap' index := by
  obtain ⟨offset, k, byte, hat, hindex⟩ := h
  obtain ⟨constant, function, hconstant, hfunction, hk⟩ := hat.function
  refine ⟨offset, k, byte, ⟨hat.opcode, ⟨constant, function, hconstant, ?_, hk⟩, hat.origin,
    hat.index⟩, hindex⟩
  rw [← hfunction]
  simp only [Chunk.functionAt?, Heap.function, hfunctions]

namespace CapturedIn

variable {heap : Heap} {f : Frame} {above rest calls : List Frame} {slot : Nat}

/-- The slots of calls further in are higher. -/
theorem append (h : CapturedIn heap calls slot) (habove : ∀ g ∈ above, slot < g.slots) :
    CapturedIn heap (above ++ calls) slot := by
  induction above with
  | nil => exact h
  | cons g above ih =>
    refine .outer (habove g List.mem_cons_self) (ih fun g' hg' => ?_)
    exact habove g' (List.mem_cons_of_mem g hg')

/-- The place that a call has come to does not matter. -/
theorem moveTo (h : CapturedIn heap (f :: rest) slot) (ip : Nat) :
    CapturedIn heap ({ f with ip } :: rest) slot := by
  cases h with
  | own hle hknown h => exact .own (f := { f with ip }) hle hknown h
  | outer hlt h => exact .outer (f := { f with ip }) hlt h

/-- A slot below those of the first call belongs to another one. -/
theorem tail (h : CapturedIn heap (f :: rest) slot) (hlt : slot < f.slots) :
    CapturedIn heap rest slot := by
  cases h with
  | own hle _ _ => exact absurd hlt (Nat.not_lt.2 hle)
  | outer _ h => exact h

/-- A step leaves closures and functions alone. -/
theorem step {m : Machine} (h : CapturedIn m.heap calls slot) :
    CapturedIn (Exec.step.after m).heap calls slot := by
  induction h with
  | own hle hknown h =>
    refine .own hle (Nat.lt_of_lt_of_le hknown (Machine.size_closures_step m)) ?_
    rw [Machine.functionOf_step hknown]
    exact h.of_functions (Machine.functions_step m)
  | outer hlt _ ih => exact .outer hlt ih

/-- The call that a slot belongs to. -/
theorem exists_call (h : CapturedIn heap calls slot) : ∃ above f rest, calls = above ++ f :: rest ∧
    f.slots ≤ slot ∧ (∀ g ∈ above, slot < g.slots) ∧
      (heap.functionOf f.closure).Captures heap (slot - f.slots) := by
  induction h with
  | @own f rest slot hle _ h => exact ⟨[], f, rest, rfl, hle, by simp, h⟩
  | @outer f rest slot hlt _ ih =>
    obtain ⟨above, g, rest', rfl, hle, habove, h⟩ := ih
    refine ⟨f :: above, g, rest', rfl, hle, fun g' hg' => ?_, h⟩
    rcases List.mem_cons.1 hg' with rfl | hg'
    · exact hlt
    · exact habove g' hg'

end CapturedIn

/-! ## New cells -/

namespace Exec

variable {m m' : Machine} {f : Frame} {rest : List Frame} {i ip : Nat} {cell : Cell}

/-- A slot that is captured gets a cell, or has one. -/
theorem captureSlot_made {slot : Nat} {id : CellId} (hrun : captureSlot slot m = .ok id m') :
    m.Captures m' ∧ ∀ {i : Nat} {cell : Cell}, m'.heap.cells[i]? = some cell →
      m.heap.cells[i]? = some cell ∨ cell = .openAt slot := by
  unfold captureSlot at hrun
  split at hrun
  · injection hrun with _ hm
    subst hm
    exact ⟨⟨rfl, rfl, rfl, rfl, rfl⟩, .inl⟩
  · injection hrun with _ hm
    subst hm
    refine ⟨⟨rfl, rfl, rfl, rfl, rfl⟩, fun {i cell} hi => ?_⟩
    have hi : (m.heap.cells.push (.openAt slot))[i]? = some cell := hi
    rw [Array.getElem?_push] at hi
    split at hi
    · exact .inr (Option.some.inj hi).symm
    · exact .inl hi

/-- **The new cells** of a closure stand for the slots that its code names. -/
theorem readCaptures_made {base count : Nat} {around found ids : Array CellId}
    (hcalls : m.calls = f :: rest)
    (hrun : readCaptures base around found count (m.moveTo ip) = .ok ids m')
    (hi : m'.heap.cells[i]? = some cell) :
    m.heap.cells[i]? = some cell ∨ ∃ k < count, ∃ index : UInt8,
      (chunkOf m f).code[ip + 2 * k]? = some 1 ∧
      (chunkOf m f).code[ip + 2 * k + 1]? = some index ∧ cell = .openAt (base + index.toNat) := by
  induction count generalizing m f ip found with
  | zero =>
    injection hrun with _ hm
    subst hm
    exact .inl hi
  | succ count ih =>
    obtain ⟨origin, horigin, hrun⟩ := readByte_then hcalls hrun
    obtain ⟨index, hindex, hrun⟩ := readByte_then hcalls hrun
    -- The cell of the first variable is found or made, and the others follow.
    obtain ⟨id, m₁, hsame, hcells, hrest⟩ : ∃ id m₁, (m.moveTo (ip + 1 + 1)).Captures m₁ ∧
        (m₁.heap.cells[i]? = some cell → m.heap.cells[i]? = some cell ∨
          origin = 1 ∧ cell = .openAt (base + index.toNat)) ∧
        readCaptures base around (found.push id) count m₁ = .ok ids m' := by
      dsimp only at hrun
      split at hrun
      · next hlocal =>
        obtain ⟨id, m₁, hcapture, hrest⟩ := exists_of_bind_ok hrun
        obtain ⟨hsame, hcells⟩ := captureSlot_made hcapture
        exact ⟨id, m₁, hsame, fun hi => (hcells hi).imp_right fun heq => ⟨hlocal, heq⟩, hrest⟩
      · obtain ⟨id, m₁, hcaptured, hrest⟩ := exists_of_bind_ok hrun
        obtain ⟨-, rfl⟩ := capturedCell_ok hcaptured
        exact ⟨id, _, ⟨rfl, rfl, rfl, rfl, rfl⟩, .inl, hrest⟩
    have hcalls₁ : m₁.calls = { f with ip := ip + 1 + 1 } :: rest := by
      rw [Machine.calls, hsame.frames]
      exact Machine.calls_moveTo hcalls (ip + 1 + 1)
    have hchunk : chunkOf m₁ { f with ip := ip + 1 + 1 } = chunkOf m f :=
      congrArg Function.chunk (hsame.functionOf f.closure)
    rw [← Machine.moveTo_self hcalls₁] at hrest
    rcases ih hcalls₁ hrest with hold | ⟨k, hk, index', horigin', hindex', heq⟩
    · rcases hcells hold with hold | ⟨rfl, heq⟩
      · exact .inl hold
      · exact .inr ⟨0, Nat.zero_lt_succ _, index, horigin, hindex, heq⟩
    · have hnext : ip + 1 + 1 + 2 * k = ip + 2 * (k + 1) := by omega
      simp only [hchunk, hnext] at horigin' hindex'
      exact .inr ⟨k + 1, Nat.succ_lt_succ hk, index', horigin', hindex', heq⟩

/-- A closure is made with new cells for slots that its code names. -/
theorem makeClosure_made {u : Unit} (hcalls : m.calls = f :: rest)
    (hrun : makeClosure (m.moveTo ip) = .ok u m') (hi : m'.heap.cells[i]? = some cell) :
    m.heap.cells[i]? = some cell ∨ ∃ constant function k index,
      (chunkOf m f).code[ip]? = some constant ∧
      (chunkOf m f).functionAt? m.heap constant = some function ∧ k < function.captureCount ∧
      (chunkOf m f).code[ip + 1 + 2 * k]? = some 1 ∧
      (chunkOf m f).code[ip + 1 + 2 * k + 1]? = some index ∧
      cell = .openAt (f.slots + index.toNat) := by
  have hbreaks := not_breaks_of_ok hrun
  rcases readConstant_cases hcalls ip with hbroken | ⟨constant, value, hbyte, hconstant, hread⟩
  · exact absurd (hbroken.bind _) hbreaks
  have hrun := ok_after hread hrun
  cases hfunction : value.function? with
  | none =>
    rw [hfunction] at hrun
    exact absurd hrun not_defect_ok
  | some id =>
    rw [hfunction] at hrun
    have hrun := ok_after (frame_eq (Machine.calls_moveTo hcalls (ip + 1))) hrun
    have hmake : (readCaptures f.slots (m.heap.closure f.closure).captures #[]
        (m.heap.function id).captureCount >>= fun captures =>
          allocate (·.newClosure ⟨id, captures⟩) >>= fun closure => push (.closureRef closure))
        (m.moveTo (ip + 1)) = .ok u m' := hrun
    obtain ⟨ids, m₁, hcaptures, hrest⟩ := exists_of_bind_ok hmake
    obtain ⟨closure, m₂, hallocate, hpush⟩ := exists_of_bind_ok hrest
    injection hallocate with _ hm₂
    subst hm₂
    rw [(push_ok hpush).heap] at hi
    have hi : m₁.heap.cells[i]? = some cell := hi
    -- Allocating the closure and pushing it make no cell, so the cell was made for a capture.
    rcases readCaptures_made hcalls hcaptures hi with hold | ⟨k, hk, index, horigin, hindex, heq⟩
    · exact .inl hold
    · refine .inr ⟨constant, m.heap.function id, k, index, hbyte, ?_, hk, horigin, hindex, heq⟩
      simp [Chunk.functionAt?, hconstant, hfunction]

/-- Closing cells makes none. -/
theorem size_closeAll (stack : Stack Value stackLimit) (heap : Heap) (ids : List CellId) :
    (ids.foldl (Machine.closeCell stack) heap).cells.size = heap.cells.size := by
  induction ids generalizing heap with
  | nil => rfl
  | cons id ids ih =>
    rw [List.foldl_cons, ih, Machine.closeCell]
    split
    · exact Array.size_setIfInBounds ..
    · rfl

/-- **An instruction that makes no closure** makes no cell. -/
theorem size_cells_step (h : ∀ op m', readOpcode m = .ok op m' → op ≠ .closure) :
    (step.after m).heap.cells.size = m.heap.cells.size := by
  refine keeps_step (fun heap => heap.cells.size) fun op hop m₁ m₂ hchange => ?_
  cases hchange with
  | close bottom => exact size_closeAll m₁.stack m₁.heap (m₁.closing bottom)
  | assign _ _ _ _ => exact Array.size_setIfInBounds ..
  | capture slot hclosure =>
    rcases hop with rfl | ⟨m', hread⟩
    · cases hclosure
    · exact absurd hclosure (h op m' hread)
  | _ => rfl

end Exec

/-! ## Along a run -/

namespace Machine

variable {ground : Ground} {L : Ledger} {m m' : Machine} {i slot : Nat}

/-- **A cell that is open behind a step** was open before, for a slot that the instruction keeps. -/
theorem opened_before (hL : L.Describes m) (hL' : (L.after m m').Describes m')
    (hi : m'.heap.cells[i]? = some (.openAt slot)) (hold : i < m.heap.cells.size) :
    m.heap.cells[i]? = some (.openAt slot) ∧ slot < m.kept := by
  obtain ⟨x, hhome, howner⟩ := hL'.opened hi
  have hlt := hL.length_homes ▸ hold
  have hx : L.homes[i]? = some x := by
    have hbefore := List.getElem?_eq_getElem hlt
    rw [hbefore, ← hhome, getElem?_of_isPrefix (L.homes_after m m') hbefore]
  have hbegun := hL.home_lt (List.mem_of_getElem? hx)
  -- The variable has begun before the step, so its slot is one that is left alone.
  obtain ⟨s, hs, hsx⟩ := Ledger.Describes.mem_renewed (L := L.assign m)
    (List.mem_of_getElem? howner) (by rwa [Ledger.length_contents_assign])
  rw [Ledger.owners_assign] at hsx
  obtain rfl : s = slot := by
    refine eq_of_nodup hL'.owners_nodup ?_ howner
    exact Ledger.varOf?_after (a := .slot s) hsx fun j hj => by injection hj with hj; exact hj ▸ hs
  exact ⟨hL.opens_iff.2 ⟨x, hx, hsx⟩, hs⟩

/-- The slots of the open cells of a machine belong to its calls. -/
def CellsCaptured (m : Machine) : Prop :=
  ∀ i slot : Nat, m.heap.cells[i]? = some (.openAt slot) → CapturedIn m.heap m.calls slot

/-- A new cell stands for a slot that the innermost call captures. -/
theorem captured_of_new (h : m.Running ground) (hstep : Exec.step m = .ok none m')
    (hi : m'.heap.cells[i]? = some (.openAt slot)) (hnew : m.heap.cells.size ≤ i) :
    CapturedIn m'.heap m'.calls slot := by
  have hrunning := h
  obtain ⟨W, f, rest, bp, X, below, st, -, hruns⟩ := h
  obtain ⟨op, operands, next, hopcode, -, hexecute, -⟩ := hruns.next
  have hcalls := hruns.calls
  -- Only one instruction makes cells.
  by_cases hclosure : op = .closure
  · subst hclosure
    have hrun := Exec.proceed_ok (hexecute.symm.trans hstep)
    obtain ⟨_, called, -, -, hafter⟩ := Exec.makeClosure_advances hcalls (f.ip + 1)
      (Exec.not_breaks_of_ok hrun)
    rw [Exec.after_of_ok hrun] at hafter
    rcases Exec.makeClosure_made hcalls hrun hi with
      hold | ⟨constant, function, k, index, hconstant, hfunction, hk, horigin, hindex, heq⟩
    · rw [Array.getElem?_eq_none hnew] at hold
      cases hold
    · obtain rfl := Cell.openAt.inj heq
      have hop : (Exec.chunkOf m f).opcodeAt? f.ip = some .closure := by
        rw [← hopcode, opcode?, byte?, top?_of_calls hcalls]
        rfl
      have hcaptures : (m.heap.functionOf f.closure).Captures m.heap index.toNat :=
        ⟨f.ip, k, index, ⟨hop, ⟨constant, function, hconstant, hfunction, hk⟩, horigin, hindex⟩,
          rfl⟩
      have hcaptured : CapturedIn m.heap (f :: rest) (f.slots + index.toNat) := by
        refine .own (Nat.le_add_right _ _) hruns.closure_lt ?_
        rwa [Nat.add_sub_cancel_left]
      have hcaptured := hcaptured.step.moveTo (f.ip + 1 + 1 + 2 * called.captureCount)
      rwa [Exec.after_of_ok hstep, ← hafter] at hcaptured
  · have hsize := Exec.size_cells_step (m := m) fun op' m₁ hread => by
      have hsame := hopcode.symm.trans (hrunning.opcode?_of_readOpcode hread)
      exact Option.some.inj hsame ▸ hclosure
    rw [Exec.after_of_ok hstep] at hsize
    rw [Array.getElem?_eq_none (Nat.le_trans (Nat.le_of_eq hsize) hnew)] at hi
    cases hi

/-- **One step** makes cells for slots of the innermost call only, and those that stay open stand
for slots of calls that are still there. -/
theorem CellsCaptured.step (hcells : m.CellsCaptured) (hL : L.Describes m) (h : m.Running ground)
    (htrusted : Trusted ground.stale) (hstep : Exec.step m = .ok none m') : m'.CellsCaptured := by
  intro i slot hi
  by_cases hold : i < m.heap.cells.size
  · have hrunning := h
    obtain ⟨W, f, rest, bp, X, below, st, -, hruns⟩ := h
    obtain ⟨above, others, hcalls, habove, hothers⟩ := hrunning.exists_calls hruns.calls hstep
    obtain ⟨hopen, hkept⟩ := opened_before hL (hL.after hrunning htrusted hstep) hi hold
    have hcaptured := (hcells i slot hopen).step
    rw [Exec.after_of_ok hstep, hruns.calls] at hcaptured
    rw [hcalls]
    refine CapturedIn.append ?_ fun g hg => Nat.lt_of_lt_of_le hkept (habove g hg)
    rcases hothers with ⟨ip, rfl⟩ | ⟨rfl, hle⟩
    · exact hcaptured.moveTo ip
    · exact hcaptured.tail (Nat.lt_of_lt_of_le hkept hle)
  · exact captured_of_new h hstep hi (Nat.le_of_not_lt hold)

end Machine

/-- **Along a run** the slots of open cells are captured variables of calls in progress, if no cell
was open at its start. -/
theorem Machine.Progress.Tracked.captured {ground : Ground} {start : Machine.Progress} {m : Machine}
    {L : Ledger} (h : start.Tracked m L) (hsound : start.Sound ground)
    (htrusted : Trusted ground.stale) (hclosed : ∀ m, start = .running m → Trusted m.heap.slots) :
    m.CellsCaptured := by
  induction h with
  | start heq => exact fun i slot hi => absurd ⟨slot, hi⟩ (Heap.trusted_iff.1 (hclosed _ heq) ⟨i⟩)
  | step htracked hstep ih =>
    exact ih.step (htracked.describes hsound htrusted hclosed) (hsound.visits htracked.visits)
      htrusted hstep
  | pause _ pause ih => exact ih

end ScriptVM
