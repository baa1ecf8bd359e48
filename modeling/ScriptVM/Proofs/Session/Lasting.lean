/-
# What lasts

What happens to a machine from some point on, in the run in progress and in those that follow it:
`Machine.Precedes`.  As long as all runs return values, a machine is in the middle of a sound run or
rests between two of them (`Machine.Lives`), the functions that are known stay known, and closures
stay what they are, so the cell that a closure has captured is used for the same as long as the
closure is there.

Main statement: `Machine.Precedes.lives`.
-/
import ScriptVM.Proofs.Session.Quiescence
import ScriptVM.Proofs.Session.Captured

namespace ScriptVM

/-! ## What stays known -/

namespace Heap.Ok

variable {W V : World} {heap heap' : Heap} {c : Closure} {bp : Blueprint} {kind : SlotKind}
  {cell : CellId} {i k : Nat}

/-- A closure of a heap runs the function that the world says. -/
theorem exists_closure (h : heap.Ok W) (hbp : W.closures[i]? = some bp) :
    ∃ c, heap.closures[i]? = some c ∧ c.Ok W bp := by
  obtain ⟨c, hc, hok⟩ := exists_getElem?_of_forall₂ h.closures hbp
  exact ⟨c, by rw [← Array.getElem?_toList, hc], hok⟩

/-- What a closure has captured is used as its function says. -/
theorem kind_of_captured (h : heap.Ok W) (hc : heap.closures[i]? = some c)
    (hbp : W.blueprints[c.function.index]? = some bp) (hcell : c.captures[k]? = some cell)
    (hkind : bp.captures[k]? = some kind) : W.cells[cell.index]? = some kind := by
  rw [← Array.getElem?_toList] at hc hcell
  obtain ⟨bp', -, hok⟩ := exists_getElem?_of_forall₂ h.closures.flip hc
  obtain rfl : bp' = bp := Option.some.inj (hok.function.symm.trans hbp)
  obtain ⟨cell', hcell', hused⟩ := exists_getElem?_of_forall₂ hok.captures hkind
  obtain rfl : cell = cell' := Option.some.inj (hcell.symm.trans hcell')
  exact hused

/-- A closure that stays goes on running its function. -/
theorem closure_of_isPrefix (h : heap.Ok W) (h' : heap'.Ok V) (hle : W.blueprints <+: V.blueprints)
    (hclosures : heap.closures.toList <+: heap'.closures.toList) (hbp : W.closures[i]? = some bp) :
    V.closures[i]? = some bp := by
  obtain ⟨c, hc, hok⟩ := h.exists_closure hbp
  rw [← Array.getElem?_toList] at hc
  obtain ⟨bp', hbp', hok'⟩ :=
    exists_getElem?_of_forall₂ h'.closures.flip (getElem?_of_isPrefix hclosures hc)
  rw [hbp', ← hok'.function, getElem?_of_isPrefix hle hok.function]

end Heap.Ok

/-! ## One run after the other -/

namespace Machine

variable {m m₁ m' : Machine} {blueprints : List Blueprint} {result : Option Value}

/-- The machines that come after a machine, at its own time or later: in the same run, or in runs of
compiled sources that follow it.  All runs that have ended in between have returned values. -/
inductive Precedes (m : Machine) : Machine → Prop
  | refl : Precedes m m
  | step {m₁ m₂ : Machine} {result : Option Value} (h : Precedes m m₁)
      (hstep : Exec.step m₁ = .ok result m₂) : Precedes m m₂
  | pause {m₁ : Machine} (h : Precedes m m₁) (pause : Pause) : Precedes m (pause.apply m₁)
  | launch {m₁ m₂ : Machine} {source : String} {program : Program} (h : Precedes m m₁)
      (hcalls : m₁.calls = [])
      (hcompile : Program.compileAfter m₁.heap.functions source = .ok program)
      (hlaunch : (m₁.load program).launch program.main = .running m₂) : Precedes m m₂

/-- A machine is in the middle of a sound run of functions, or rests between two runs, and no cell
of an earlier run is open. -/
inductive Lives (blueprints : List Blueprint) (m : Machine) : Prop
  | running {stale : List (Option Nat)} {L : Ledger} (h : m.Running ⟨blueprints, stale⟩)
      (htrusted : Trusted stale) (hL : L.Describes m)
  | resting (h : m.RestsWith blueprints) (htrusted : Trusted m.heap.slots)

/-- A run is started with a call of a closure that captures nothing. -/
theorem launch_running {function : FunctionId} (h : m.launch function = .running m') :
    m'.heap = (m.heap.newClosure ⟨function, #[]⟩).2 ∧
      ∃ slots, m'.calls = ⟨⟨m.heap.closures.size⟩, 0, slots, .finish⟩ :: m.calls := by
  unfold launch at h
  split at h
  · next hlaunch =>
    injection h with hm
    subst hm
    obtain ⟨id, m₁, hallocate, hstart⟩ := Exec.exists_of_bind_ok hlaunch
    obtain ⟨_, m₂, hpush, henter⟩ := Exec.exists_of_bind_ok hstart
    injection hallocate with hid hm₁
    subst hid hm₁
    obtain ⟨hsize, rfl⟩ := enter_ok henter
    have hpushed := Exec.push_ok hpush
    refine ⟨hpushed.heap, m₂.stack.size - ((0 : UInt8).toNat + 1), ?_⟩
    exact (Stack.down_pushOf hsize).trans (congrArg _ hpushed.calls)
  · cases h

namespace Lives

/-- Where an instruction is carried out, a run is in progress. -/
theorem exists_running (h : m.Lives blueprints) (hstep : Exec.step m = .ok result m') :
    ∃ stale L, m.Running ⟨blueprints, stale⟩ ∧ Trusted stale ∧ Ledger.Describes L m := by
  cases h with
  | running h htrusted hL => exact ⟨_, _, h, htrusted, hL⟩
  | resting h _ =>
    obtain ⟨_, _, hread, -⟩ := Exec.exists_of_bind_ok hstep
    obtain ⟨f, rest, hcalls, -⟩ := Exec.readOpcode_ok hread
    cases h.calls.symm.trans hcalls

/-- A machine lives on through a step. -/
theorem step (h : m.Lives blueprints) (hstep : Exec.step m = .ok result m') :
    m'.Lives blueprints := by
  obtain ⟨stale, L, hrunning, htrusted, hL⟩ := h.exists_running hstep
  have hcontinues := step_continues hrunning
  rw [Exec.Ensures, hstep] at hcontinues
  cases result with
  | none => exact .running hcontinues htrusted (hL.after hrunning htrusted hstep)
  | some value =>
    have hquiet : m'.Quiet ⟨blueprints, stale⟩ := hcontinues
    exact .resting hquiet.rests (hquiet.trusted htrusted)

/-- A machine lives on through a pause. -/
theorem pause (h : m.Lives blueprints) (pause : Pause) : (pause.apply m).Lives blueprints := by
  cases h with
  | running h htrusted hL => exact .running (h.pause pause) htrusted (hL.congr rfl rfl)
  | resting h htrusted =>
    obtain ⟨⟨W, hground, hat⟩, hcalls⟩ := h
    exact .resting ⟨⟨W, hground, hat.heap, hat.globals, hat.values, hat.cells⟩, hcalls⟩ htrusted

/-- **A run that is started between two runs** keeps the functions that there are. -/
theorem launch {source : String} {program : Program} (h : m.Lives blueprints)
    (hcalls : m.calls = [])
    (hcompile : Program.compileAfter m.heap.functions source = .ok program)
    (hlaunch : (m.load program).launch program.main = .running m') :
    ∃ blueprints', blueprints <+: blueprints' ∧ m'.Lives blueprints' := by
  cases h with
  | running h _ _ =>
    obtain ⟨W, f, rest, bp, X, below, st, -, h⟩ := h
    cases hcalls.symm.trans h.calls
  | resting h htrusted =>
    obtain ⟨blueprints', hle, hsound⟩ := h.launch hcompile
    rw [hlaunch] at hsound
    refine ⟨blueprints', hle, .running hsound htrusted (.start ?_)⟩
    rw [Heap.slots, cells_of_launch hlaunch]
    exact htrusted

/-- The functions of a machine between or in its runs are as their blueprints say. -/
theorem table (h : m.Lives blueprints) : TableFits blueprints m.heap.functions.toList := by
  cases h with
  | running h _ _ =>
    obtain ⟨W, f, rest, bp, X, below, st, hground, h⟩ := h
    obtain rfl : W.blueprints = blueprints := congrArg Ground.blueprints hground
    exact h.typed.heap.table
  | resting h _ =>
    obtain ⟨⟨W, hground, hat⟩, -⟩ := h
    obtain rfl : W.blueprints = blueprints := congrArg Ground.blueprints hground
    exact hat.heap.table

end Lives

/-- **From some point on** a machine lives as long as its runs return values, and the functions and
closures that there were stay. -/
theorem Precedes.lives (h : m.Precedes m') (hm : m.Lives blueprints) :
    ∃ blueprints', blueprints <+: blueprints' ∧ m'.Lives blueprints' ∧
      m.heap.closures.toList <+: m'.heap.closures.toList := by
  induction h with
  | refl => exact ⟨_, List.prefix_rfl, hm, List.prefix_rfl⟩
  | @step m₁ m₂ _ _ hstep ih =>
    obtain ⟨blueprints', hle, hlives, hclosures⟩ := ih
    have hkept := Exec.isPrefix_closures_step m₁
    rw [Exec.after_of_ok hstep] at hkept
    exact ⟨blueprints', hle, hlives.step hstep, hclosures.trans hkept⟩
  | pause _ pause ih =>
    obtain ⟨blueprints', hle, hlives, hclosures⟩ := ih
    exact ⟨blueprints', hle, hlives.pause pause, hclosures⟩
  | launch _ hcalls hcompile hlaunch ih =>
    obtain ⟨blueprints', hle, hlives, hclosures⟩ := ih
    obtain ⟨blueprints'', hle', hlives'⟩ := hlives.launch hcalls hcompile hlaunch
    refine ⟨blueprints'', hle.trans hle', hlives', hclosures.trans ?_⟩
    rw [(launch_running hlaunch).1]
    exact (Array.toList_push ..).symm ▸ List.prefix_append _ _

end Machine

end ScriptVM
