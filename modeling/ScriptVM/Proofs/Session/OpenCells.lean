/-
# The open cells of a run

A machine keeps a list of the cells that stand for stack slots, and looks a slot up there before it
makes another cell for it.  Between two instructions of a run that list is in order
(`Machine.CellsInOrder`): its cells are open, for different slots, each of which holds a captured
variable of a call in progress; and no other cell is open.

A run that fails leaves cells open for slots that are gone, so the runs are those of a session whose
runs have returned values so far; the first run of a session is one of them.

Main statement: `Session.Reached.cellsInOrder`.
-/
import ScriptVM.Proofs.Machine.Captors
import ScriptVM.Proofs.Session.Captured

namespace ScriptVM

/-! ## The list of open cells -/

/-- The cells to be looked through are different cells of the heap. -/
structure Machine.Distinct (m : Machine) : Prop where
  /-- They are different. -/
  nodup : m.openCells.Nodup
  /-- They are there. -/
  known : ∀ id ∈ m.openCells, CellId.index id < m.heap.cells.size

namespace Machine

variable {m m' : Machine} {op : Opcode}

/-- A cell that is made is none of those before. -/
theorem Change.distinct (h : m.Change op m') (hm : m.Distinct) : m'.Distinct := by
  cases h with
  | capture slot _ =>
    refine ⟨List.nodup_cons.2 ⟨fun hmem => ?_, hm.nodup⟩, fun id hid => ?_⟩
    · exact Nat.lt_irrefl _ (hm.known _ hmem)
    · show id.index < (m.heap.cells.push _).size
      rw [Array.size_push]
      rcases List.mem_cons.1 hid with rfl | hid
      · exact Nat.lt_succ_self _
      · exact Nat.lt_succ_of_lt (hm.known id hid)
  | close bottom =>
    have hsize : (m.closeCells bottom).heap.cells.size = m.heap.cells.size :=
      Exec.size_closeAll m.stack m.heap (m.closing bottom)
    refine ⟨?_, fun id hid => ?_⟩
    · show (m.openCells.partition (m.opensAbove bottom)).2.Nodup
      rw [List.partition_eq_filter_filter]
      exact hm.nodup.filter _
    · rw [hsize]
      exact hm.known id (mem_openCells_closeCells.1 hid).1
  | assign id _ new _ =>
    refine ⟨hm.nodup, fun id' hid' => ?_⟩
    show id'.index < (m.heap.cells.setIfInBounds id.index (.closed new)).size
    rw [Array.size_setIfInBounds]
    exact hm.known id' hid'
  | _ => exact ⟨hm.nodup, hm.known⟩

theorem Becomes.distinct (h : m.Becomes op m') (hm : m.Distinct) : m'.Distinct := by
  induction h with
  | refl => exact hm
  | tail _ hlast ih => exact hlast.distinct ih

/-- **One step** keeps the list of open cells without doubles. -/
theorem Distinct.step (hm : m.Distinct) (hstep : Exec.step m = .ok none m') : m'.Distinct := by
  rw [← Exec.after_of_ok hstep]
  rcases Exec.step_cases m with ⟨op, -, hbecomes, -⟩ | ⟨f, rest, value, -, -, -, hresume⟩
  · exact hbecomes.distinct hm
  · have hleft : Distinct { m with stack := m.stack.dropTop, frames := m.frames.dropTop } :=
      ⟨hm.nodup, hm.known⟩
    have hclosed := (show Change .ret _ _ from .close _ f.slots).distinct hleft
    have hunwound : (m.unwound f.slots).Distinct := ⟨hclosed.nodup, hclosed.known⟩
    have hfinish : f.resume ≠ .finish := by
      intro hfinish
      rw [hresume, hfinish] at hstep
      cases hstep
    rw [Exec.after, hresume, ← Exec.after]
    exact ((@Exec.resume_changes .ret _ hfinish value).becomes _).distinct hunwound

end Machine

/-- The list of open cells has no doubles along a run that starts without open cells. -/
theorem Machine.Progress.Visits.distinct {ground : Ground} {start : Machine.Progress} {m : Machine}
    (h : start.Visits m) (hsound : start.Sound ground)
    (hclosed : ∀ m, start = .running m → Trusted m.heap.slots) : m.Distinct := by
  induction h with
  | @start m heq =>
    obtain ⟨W, f, rest, bp, X, below, st, -, hruns⟩ := hsound.visits (.start heq)
    have hempty : m.openCells = [] := List.eq_nil_iff_forall_not_mem.2 fun id hid =>
      Heap.trusted_iff.1 (hclosed _ heq) id (hruns.typed.cells.known id hid).2
    exact ⟨hempty ▸ List.nodup_nil, by simp [hempty]⟩
  | step _ hstep ih => exact ih.step hstep
  | pause _ pause ih => exact ⟨ih.nodup, ih.known⟩

/-! ## Open cells in order -/

namespace Machine

/-- **A stack slot holds a captured variable**: it is one of the slots of a call in progress, whose
function captures the local variable in it, and no instruction takes it as an operand. -/
structure HoldsCaptured (m : Machine) (slot : Nat) : Prop where
  /-- The slot is on the stack. -/
  lt_size : slot < m.stack.size
  /-- It belongs to a call in progress, which captures its variable. -/
  owner : ∃ inner f outer, m.calls = inner ++ f :: outer ∧ f.slots ≤ slot ∧
    (∀ g ∈ inner, slot < g.slots) ∧
    (m.heap.functionOf f.closure).Captures m.heap (slot - f.slots)
  /-- It holds no operand. -/
  free : ¬m.Pending slot

/-- **The open cells of a machine are in order.** -/
structure CellsInOrder (m : Machine) : Prop where
  /-- The cells of the list are open, and their slots hold captured variables. -/
  opened : ∀ id ∈ m.openCells, ∃ slot,
    m.heap.cells[CellId.index id]? = some (.openAt slot) ∧ m.HoldsCaptured slot
  /-- They stand for different slots. -/
  apart : m.openCells.Pairwise fun id id' => m.heap.cell id ≠ m.heap.cell id'
  /-- A cell of the heap that is open is in the list. -/
  listed : ∀ id slot, m.heap.cells[CellId.index id]? = some (.openAt slot) → id ∈ m.openCells
  /-- The cells that closures refer to are cells of the heap. -/
  known : ∀ closure, ∀ id ∈ (m.heap.closure closure).captures, CellId.index id < m.heap.cells.size

variable {ground : Ground} {m : Machine} {L : Ledger}

/-- The cells of a closure are cells of the heap. -/
theorem Running.captures_lt (h : m.Running ground) (closure : ClosureId) (id : CellId)
    (hid : id ∈ (m.heap.closure closure).captures) : id.index < m.heap.cells.size := by
  obtain ⟨W, f, rest, bp, X, below, st, -, hruns⟩ := h
  have hheap := hruns.typed.heap
  cases hbp : W.closures[closure.index]? with
  | some bp' =>
    obtain ⟨kind, -, hkind⟩ := exists_mem_of_forall₂ (hheap.closure hbp).captures
      (Array.mem_toList_iff.2 hid)
    exact (Array.getElem?_eq_some_iff.1 (hheap.getElem?_cells hkind)).1
  | none =>
    have hsize : m.heap.closures.size ≤ closure.index := by
      rw [← Array.length_toList, hheap.closures.length_eq]
      exact List.getElem?_eq_none_iff.1 hbp
    have hempty : (m.heap.closure closure).captures = #[] := by
      rw [Heap.closure, Array.getD_eq_getD_getElem?, Array.getElem?_eq_none hsize]
      rfl
    rw [hempty] at hid
    simp at hid

/-- **A running machine with a right ledger** has its open cells in order, if their slots are
captured variables of its calls. -/
theorem Running.inOrder (h : m.Running ground) (htrusted : Trusted ground.stale)
    (hL : L.Describes m) (hdistinct : m.Distinct) (hcaptured : m.CellsCaptured) :
      m.CellsInOrder := by
  have hrunning := h
  obtain ⟨W, f, rest, bp, X, below, st, rfl, hruns⟩ := h
  have hindexed := hL.indexed hruns.typed htrusted
  have hopened : ∀ id ∈ m.openCells, ∃ slot,
      m.heap.cells[CellId.index id]? = some (.openAt slot) ∧ m.HoldsCaptured slot := by
    intro id hid
    obtain ⟨slot, hslot⟩ := hindexed.known id hid
    exact ⟨slot, hslot, hrunning.lt_of_open htrusted hslot, (hcaptured _ _ hslot).exists_call,
      fun hpending => hrunning.pending_not_open htrusted hpending hslot⟩
  refine ⟨hopened, ?_, fun id slot hslot => hindexed.listed hslot, hrunning.captures_lt⟩
  refine hdistinct.nodup.imp_of_mem fun {id id'} hid hid' hne heq => hne ?_
  obtain ⟨slot, hslot, -⟩ := hopened id hid
  obtain ⟨slot', hslot', -⟩ := hopened id' hid'
  rw [Heap.cell, Heap.cell, Array.getD_eq_getD_getElem?, Array.getD_eq_getD_getElem?, hslot,
    hslot'] at heq
  obtain rfl := Cell.openAt.inj heq
  have hsame := hindexed.alone hslot hslot'
  cases id
  cases id'
  exact congrArg CellId.mk hsame

end Machine

/-! ## Runs of sessions -/

namespace Session

variable {natives : List Native} {s : Session} {source : String} {program : Program} {m : Machine}

/-- **The open cells are in order** between two instructions of every run of a session whose runs
have returned values so far. -/
theorem Reached.cellsInOrder (h : Reached natives s)
    (hcompile : Program.compileAfter s.machine.heap.functions source = .ok program)
    (hvisits : ((s.machine.load program).launch program.main).Visits m) : m.CellsInOrder := by
  have hclean := h.clean
  obtain ⟨blueprints, hsound⟩ := hclean.rests.launch hcompile
  have hclosed : ∀ m₀, (s.machine.load program).launch program.main = .running m₀ →
      Trusted m₀.heap.slots := by
    intro m₀ hm₀
    rw [Heap.slots, Machine.cells_of_launch hm₀]
    exact hclean.trusted
  obtain ⟨L, htracked⟩ := hvisits.exists_tracked
  exact (hsound.visits hvisits).inOrder hclean.trusted
    (htracked.describes hsound hclean.trusted hclosed) (hvisits.distinct hsound hclosed)
    (htracked.captured hsound hclean.trusted hclosed)

/-- Whether a program comes to a machine with open cells. -/
def opensCell (source : String) (steps : Nat) : Bool :=
  match Program.compileAfter #[] source with
  | .ok program =>
    match ((Session.new Native.all .reliable 0).machine.load program).launch program.main with
    | .running m₀ =>
      match m₀.advance steps with
      | .running m => !m.openCells.isEmpty
      | _ => false
    | _ => false
  | _ => false

/-- A function that refers to itself captures its slot before there is a value in it. -/
theorem Reached.cellsInOrder_recursive : ∃ program m,
    Program.compileAfter #[] "\x7b func f() \x7b return f; \x7d print f; \x7d" = .ok program ∧
    (((Session.new Native.all .reliable 0).machine.load program).launch program.main).Visits m ∧
    m.openCells ≠ [] ∧ m.CellsInOrder := by
  have hchecked : opensCell "\x7b func f() \x7b return f; \x7d print f; \x7d" 1 = true := by
    decide +kernel
  unfold opensCell at hchecked
  split at hchecked
  · next program hcompile =>
    split at hchecked
    · next m₀ hlaunch =>
      split at hchecked
      · next m hm =>
        have hvisits := (Machine.Progress.Visits.start hlaunch).advance hm
        refine ⟨program, m, hcompile, hvisits, fun hempty => ?_,
          Reached.cellsInOrder (.new .reliable 0) hcompile hvisits⟩
        rw [hempty] at hchecked
        cases hchecked
      · exact Bool.noConfusion hchecked
    · exact Bool.noConfusion hchecked
  · exact Bool.noConfusion hchecked

end Session

end ScriptVM
