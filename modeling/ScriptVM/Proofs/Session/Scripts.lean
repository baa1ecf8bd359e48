/-
# How runs start and end

On an idle machine a run starts with one closure more, which is called and is the only value on the
stack (`Machine.Begins`).  A script ends with two instructions that leave this call: they push `nil`
and return it, and change nothing else.
-/
import ScriptVM.Proofs.Machine.Timed
import ScriptVM.Proofs.Session.Quiescence

namespace ScriptVM

namespace Machine

variable {m m' : Machine} {main : FunctionId}

/-! ## Starting -/

/-- A machine that has started to run a function. -/
structure Begins (m : Machine) (main : FunctionId) (m' : Machine) : Prop where
  /-- There is one closure more, that of the function. -/
  heap : m'.heap = (m.heap.newClosure ⟨main, #[]⟩).2
  /-- It is the only value on the stack. -/
  values : m'.values = [.closureRef ⟨m.heap.closures.size⟩]
  /-- It stands at its first instruction, and is called by nothing else. -/
  calls : m'.calls = [⟨⟨m.heap.closures.size⟩, 0, 0, .finish⟩]
  /-- No cell is open. -/
  openCells : m'.openCells = []
  /-- The global variables are the same. -/
  globals : m'.globals = m.globals
  /-- Nothing has been written. -/
  sink : m'.sink = m.sink
  /-- The time is the same. -/
  now : m'.now = m.now

theorem Begins.functions_eq (h : m.Begins main m') : m'.heap.functions = m.heap.functions := by
  rw [h.heap]
  rfl

theorem Idle.values_eq (h : m.Idle) : m.values = [] := by
  rw [values, h.stack]
  rfl

theorem Idle.calls_eq (h : m.Idle) : m.calls = [] := by
  rw [calls, h.frames]
  rfl

/-- **A function without parameters starts** on an idle machine. -/
theorem Idle.exists_begins (h : m.Idle) (harity : (m.heap.function main).arity = 0) :
    ∃ m', m.launch main = .running m' ∧ m.Begins main m' := by
  have hroom : m.stack.size < stackLimit := by
    rw [h.stack]
    decide
  have hframes : m.frames.size < frameLimit := by
    rw [h.frames]
    decide
  let closure : ClosureId := ⟨m.heap.closures.size⟩
  let made : Machine := { m with heap := (m.heap.newClosure ⟨main, #[]⟩).2 }
  let called : Machine := { made with stack := m.stack.pushOf (.closureRef closure) hroom }
  have hpush : Exec.push (.closureRef closure) made = .ok () called := dif_pos hroom
  have hvalues : called.values = [.closureRef closure] := by
    show (m.stack.pushOf _ hroom).down = _
    rw [Stack.down_pushOf, ← values, h.values_eq]
  have hfunction : (called.heap.functionOf closure).arity = 0 := by
    rw [← harity]
    simp [called, made, closure, Heap.newClosure, Heap.functionOf, Heap.closure, Heap.function]
  have henter : Exec.enter closure 0 .finish called =
      .ok () { called with frames := m.frames.pushOf ⟨closure, 0, 0, .finish⟩ hframes } := by
    rw [Exec.enter, Exec.bind_of_ok (show Exec.heap called = .ok called.heap called from rfl)]
    dsimp only
    rw [if_neg (by simp [hfunction])]
    exact (Exec.bind_of_ok (Exec.calleeSlot_eq (n := 0) (by rw [hvalues]; rfl))).trans
      (dif_pos hframes)
  refine ⟨{ called with frames := m.frames.pushOf ⟨closure, 0, 0, .finish⟩ hframes }, ?_, ?_⟩
  · rw [Machine.launch, Exec.launch,
      Exec.bind_of_ok (show Exec.allocate _ m = .ok closure made from rfl), Exec.bind_of_ok hpush,
      henter]
  · refine ⟨rfl, hvalues, ?_, h.openCells, rfl, rfl, rfl⟩
    show (m.frames.pushOf _ hframes).down = _
    rw [Stack.down_pushOf, ← calls, h.calls_eq]

/-! ## Ending -/

/-- A run leaves the functions alone. -/
theorem Progress.Visits.functions_eq (h : (Progress.running m).Visits m') :
    m'.heap.functions = m.heap.functions := by
  induction h with
  | start heq =>
    obtain rfl := Progress.running.inj heq
    rfl
  | @step m₁ m₂ _ hstep ih =>
    have hfunctions := m₁.functions_step
    rw [Exec.after_of_ok hstep] at hfunctions
    exact hfunctions.trans ih
  | pause _ _ ih => exact ih

/-- So does its end. -/
theorem Progress.Ends.functions_eq {last : Machine} {value : Value}
    (h : (Progress.running m).Ends last (.ok value) m') :
    m'.heap.functions = m.heap.functions := by
  cases h with
  | returned hvisits hstep =>
    have hfunctions := last.functions_step
    rw [Exec.after_of_ok hstep] at hfunctions
    exact hfunctions.trans hvisits.functions_eq

/-- A run that has ended in two steps, with `nil`; nothing else has changed but the time. -/
structure RunsOut (m : Machine) (now now' : Float) (m' : Machine) : Prop where
  /-- The run ends at two times. -/
  returns : (Progress.running m).timed [now, now'] = some (.finished .nil m')
  /-- The objects are the same. -/
  heap : m'.heap = m.heap
  /-- The global variables are the same. -/
  globals : m'.globals = m.globals
  /-- Nothing has been written. -/
  sink : m'.sink = m.sink
  /-- The time is the second one. -/
  now : m'.now = now'

/-- If a run ends in two steps whatever the time is, it ends at no other number of times. -/
theorem exists_two_of_runsOut {times : List Float} {value : Value}
    (h : ∀ now now', ∃ k, m.RunsOut now now' k)
    (hend : (Progress.running m).timed times = some (.finished value m')) :
    ∃ now now', times = [now, now'] ∧ m.RunsOut now now' m' := by
  match times with
  | [] => cases hend
  | [now] =>
    obtain ⟨k, hk⟩ := h now now
    have hover := (Progress.timed_append_of_eq hend [now]).symm.trans hk.returns
    cases hover
  | [now, now'] =>
    obtain ⟨k, hk⟩ := h now now'
    obtain ⟨-, rfl⟩ := Progress.finished.inj (Option.some.inj (hend.symm.trans hk.returns))
    exact ⟨now, now', rfl, hk⟩
  | now :: now' :: next :: rest =>
    obtain ⟨k, hk⟩ := h now now'
    have hover := (Progress.timed_append_of_eq hk.returns (next :: rest)).symm.trans hend
    cases hover

/-- **The end of a script** takes two steps, which push `nil` and return it. -/
theorem exists_runsOut {f : Frame} (hcalls : m.calls = [f]) (hresume : f.resume = .finish)
    (hopen : m.openCells = []) (hroom : m.stack.size < stackLimit)
    (hpush : (Exec.chunkOf m f).code[f.ip]? = some Opcode.pushNil.toByte)
    (hret : (Exec.chunkOf m f).code[f.ip + 1]? = some Opcode.ret.toByte) (now now' : Float) :
    ∃ m', m.RunsOut now now' m' := by
  -- `m₁` is the machine once `nil` has been pushed, `m₂` the one that is about to return it.
  let m₀ : Machine := m.showing now
  let m₁ : Machine := { m₀.moveTo (f.ip + 1) with stack := m₀.stack.pushOf .nil hroom }
  let m₂ : Machine := (m₁.showing now').moveTo (f.ip + 2)
  have hcalls₁ : m₁.calls = [{ f with ip := f.ip + 1 }] :=
    calls_moveTo (m := m₀) hcalls (f.ip + 1)
  have hcalls₂ : m₂.calls = [{ f with ip := f.ip + 2 }] :=
    calls_moveTo (m := m₁.showing now') hcalls₁ (f.ip + 2)
  have hfirst : Exec.step m₀ = .ok none m₁ :=
    (Exec.bind_of_ok (Exec.readOpcode_eq (m := m₀) hcalls hpush)).trans
      (Exec.bind_of_ok (dif_pos hroom))
  have hread : Exec.readOpcode (m₁.showing now') = .ok .ret m₂ :=
    Exec.readOpcode_eq (m := m₁.showing now') hcalls₁ hret
  have htop : m₂.stack.top? = some .nil := by
    rw [Stack.top?_eq_head?]
    show (m.stack.pushOf .nil hroom).down.head? = _
    rw [Stack.down_pushOf]
    rfl
  have hunwind := Exec.unwind_eq_ok hcalls₂ htop
  dsimp only at hunwind
  have hlast : Exec.step (m₁.showing now') = .ok (some .nil) (m₂.unwound f.slots) := by
    rw [Exec.step, Exec.bind_of_ok hread]
    show Exec.leave _ = _
    rw [Exec.leave_eq, Exec.bind_of_ok hunwind, hresume]
    rfl
  refine ⟨m₂.unwound f.slots, ?_, ?_, rfl, rfl, rfl⟩
  · rw [Progress.timed_cons_of_step hfirst, Progress.timed, Machine.advance, hlast]
    rfl
  · -- There is no cell to be closed.
    show (m.openCells.partition (m.opensAbove f.slots)).1.foldl _ m.heap = m.heap
    rw [hopen]
    rfl

end Machine

end ScriptVM
