/-
# Machines between runs are idle

Whatever functions are run on a machine, sound or broken, once a run has returned a value or failed,
the stack of values, the stack of calls and the open cells are empty.

An instruction that evaluates a closure, and the run itself, loop until a call of theirs is left.
`Machine.floors` are the numbers of calls below these calls.  Along a run a loop with a floor has
more calls than that, until a return leaves exactly the calls of the floor.

Main statement: `Machine.Served.quiescent`.
-/
import ScriptVM.Proofs.Machine.Changes
import ScriptVM.Proofs.Machine.Depth
import ScriptVM.Proofs.Session.Soundness

namespace ScriptVM

/-! ## Calls and loops -/

/-- The slots of a call and what its result is for; neither changes while the call is in
progress. -/
def Frame.window (f : Frame) : Nat × Resume :=
  (f.slots, f.resume)

/-- Whether a result ends a loop: the run, or the evaluation of a closure inside an instruction. -/
def Resume.endsLoop : Resume → Bool
  | .caller => false
  | _ => true

/-- The floors of the loops in progress, innermost first: the numbers of calls below those calls
that the loops wait for. -/
def floorsOf : List (Nat × Resume) → List Nat
  | [] => []
  | w :: below => if w.2.endsLoop then below.length :: floorsOf below else floorsOf below

/-- A floor is the number of calls below one that a loop waits for. -/
theorem exists_of_mem_floorsOf {ws : List (Nat × Resume)} {floor : Nat} (h : floor ∈ floorsOf ws) :
    ∃ above w below, ws = above ++ w :: below ∧ below.length = floor ∧ w.2.endsLoop = true := by
  induction ws with
  | nil => simp [floorsOf] at h
  | cons w rest ih =>
    rw [floorsOf] at h
    split at h
    · next hw =>
      rcases List.mem_cons.1 h with rfl | h
      · exact ⟨[], w, rest, rfl, rfl, hw⟩
      · obtain ⟨above, w', below, rfl, hlength, hw'⟩ := ih h
        exact ⟨w :: above, w', below, rfl, hlength, hw'⟩
    · obtain ⟨above, w', below, rfl, hlength, hw'⟩ := ih h
      exact ⟨w :: above, w', below, rfl, hlength, hw'⟩

theorem Resume.endsLoop_of_isNested {r : Resume} (h : r.isNested = true) : r.endsLoop = true := by
  cases r <;> simp_all [isNested, endsLoop]

/-- The loops of calls above the one that ends the run are evaluations inside instructions. -/
theorem length_floorsOf {above : List (Nat × Resume)} {base : Nat × Resume}
    (habove : ∀ w ∈ above, w.2 ≠ .finish) (hbase : base.2 = .finish) :
    (floorsOf (above ++ [base])).length = (above ++ [base]).countP (·.2.isNested) + 1 := by
  induction above with
  | nil => simp [floorsOf, hbase, Resume.endsLoop, Resume.isNested]
  | cons w above ih =>
    have ih := ih fun w' hw' => habove w' (List.mem_cons_of_mem w hw')
    have hw := habove w List.mem_cons_self
    rw [List.cons_append, floorsOf, List.countP_cons]
    split
    · next hends =>
      have hnested : w.2.isNested = true := by
        revert hends hw
        cases w.2 <;> first | exact fun _ _ => rfl | exact fun hw => absurd rfl hw | exact nofun
      simp [ih, hnested]
    · next hends =>
      have hnested : ¬w.2.isNested = true := fun h => hends (Resume.endsLoop_of_isNested h)
      simp [ih, hnested]

namespace Machine

variable {m m' : Machine}

/-- The windows of the calls in progress, innermost first. -/
def windows (m : Machine) : List (Nat × Resume) :=
  m.calls.map Frame.window

/-- The floors of the loops in progress, innermost first. -/
def floors (m : Machine) : List Nat :=
  floorsOf m.windows

theorem length_windows (m : Machine) : m.windows.length = m.frames.size := by
  rw [windows, List.length_map, calls, Stack.length_down]

theorem nesting_eq (m : Machine) : m.nesting = m.windows.countP (·.2.isNested) := by
  rw [windows, List.countP_map, nesting, calls, Stack.down, List.countP_reverse]
  rfl

/-- The windows of the calls do not depend on where these stand. -/
theorem windows_moveTo (m : Machine) (ip : Nat) : (m.moveTo ip).windows = m.windows := by
  cases hcalls : m.calls with
  | nil =>
    have hempty : m.frames.items = #[] := by
      have hlist : m.frames.toList = [] := by
        rw [← List.reverse_eq_nil_iff]
        exact hcalls
      exact Array.toList_eq_nil_iff.1 hlist
    have hsame : m.frames.modifyTop (fun f => { f with ip }) = m.frames :=
      Stack.ext_items (by simp [Stack.modifyTop, hempty])
    rw [moveTo, hsame]
  | cons f rest =>
    rw [windows, calls_moveTo hcalls, windows, hcalls]
    rfl

/-! ## What small changes keep -/

/-- A small change keeps the calls in progress and starts at most one, which does not end the
run. -/
theorem Change.windows {op : Opcode} (h : Change op m m') :
    ∃ above, m'.windows = above ++ m.windows ∧ ∀ w ∈ above, w.2 ≠ .finish := by
  have hsame : m'.windows = m.windows → ∃ above, m'.windows = above ++ m.windows ∧
      ∀ w ∈ above, w.2 ≠ .finish := fun heq => ⟨[], heq, by simp⟩
  cases h with
  | goTo ip => exact hsame (m.windows_moveTo ip)
  | call f hf hsize =>
    refine ⟨[f.window], ?_, by simpa [Frame.window] using hf⟩
    show (m.frames.pushOf f hsize).down.map Frame.window = _
    rw [Stack.down_pushOf]
    rfl
  | values | global | write | newClosure | newClass | newInstance | field | method | property
  | inherit | assign | capture | close => exact hsame rfl

/-- Small changes put windows on top, none of which ends the run. -/
theorem Becomes.windows {op : Opcode} (h : Becomes op m m') :
    ∃ above, m'.windows = above ++ m.windows ∧ ∀ w ∈ above, w.2 ≠ .finish := by
  induction h with
  | refl => exact ⟨[], rfl, by simp⟩
  | tail _ hchange ih =>
    obtain ⟨above, heq, habove⟩ := ih
    obtain ⟨above', heq', habove'⟩ := hchange.windows
    refine ⟨above' ++ above, by rw [heq', heq, List.append_assoc], fun w hw => ?_⟩
    rcases List.mem_append.1 hw with hw | hw
    · exact habove' w hw
    · exact habove w hw

/-- The cells that are looked through for captured variables are open. -/
def Listed (m : Machine) : Prop :=
  ∀ id ∈ m.openCells, m.heap.Opens id

/-- Closing the cells of the upper slots leaves the others open. -/
theorem Listed.closeCells (h : m.Listed) (bottom : Nat) : (m.closeCells bottom).Listed := by
  intro id hid
  obtain ⟨hmem, hbelow⟩ := mem_openCells_closeCells.1 hid
  obtain ⟨slot, hslot⟩ := h id hmem
  refine ⟨slot, ?_⟩
  show ((m.closing bottom).foldl (closeCell m.stack) m.heap).cells[id.index]? = _
  rw [getElem?_closeAll, hslot, Option.map_some, if_neg]
  rw [mem_closing, hbelow]
  simp

/-- A small change leaves the cells that are looked through open. -/
theorem Change.listed {op : Opcode} (h : Change op m m') (hlisted : m.Listed) : m'.Listed := by
  cases h with
  | assign id old new hclosed =>
    intro open' hopen
    obtain ⟨slot, hslot⟩ := hlisted open' hopen
    refine ⟨slot, ?_⟩
    -- an open cell is another one than the closed cell that is assigned
    have hne : id.index ≠ open'.index := by
      intro heq
      rw [Heap.cell, Array.getD_eq_getD_getElem?, heq, hslot] at hclosed
      cases hclosed
    show (m.heap.cells.setIfInBounds id.index _)[open'.index]? = _
    rw [Array.getElem?_setIfInBounds_ne hne, hslot]
  | capture slot =>
    intro id hid
    rcases List.mem_cons.1 hid with rfl | hid
    · exact ⟨slot, by simp [Heap.newCell]⟩
    · obtain ⟨slot', hslot'⟩ := hlisted id hid
      refine ⟨slot', ?_⟩
      show (m.heap.cells.push _)[id.index]? = _
      rw [Array.getElem?_push, if_neg, hslot']
      have hlt := (Array.getElem?_eq_some_iff.1 hslot').1
      omega
  | close bottom => exact hlisted.closeCells bottom
  | goTo | call | values | global | write | newClosure | newClass | newInstance | field | method
  | property | inherit => exact hlisted

theorem Becomes.listed {op : Opcode} (h : Becomes op m m') (hlisted : m.Listed) : m'.Listed := by
  induction h with
  | refl => exact hlisted
  | tail _ hchange ih => exact hchange.listed ih

/-! ## Machines during a run -/

/-- A machine during a run: the lowest call, at the bottom of the stack, is the only one that ends
the run, and the cells that are looked through are open. -/
structure Orderly (m : Machine) : Prop where
  /-- Only the lowest call ends the run. -/
  base : ∃ above, m.windows = above ++ [(0, .finish)] ∧ ∀ w ∈ above, w.2 ≠ .finish
  /-- The cells that are looked through are open. -/
  listed : m.Listed

/-- A machine without values, calls and open cells. -/
structure Idle (m : Machine) : Prop where
  /-- The stack of values is empty. -/
  stack : m.stack = .empty
  /-- The stack of calls is empty. -/
  frames : m.frames = .empty
  /-- No cell is looked through. -/
  openCells : m.openCells = []
  /-- No call runs inside an instruction. -/
  nesting : m.nesting = 0

/-- Small changes leave a machine in order. -/
theorem Becomes.orderly {op : Opcode} (h : Becomes op m m') (horderly : m.Orderly) :
    m'.Orderly := by
  obtain ⟨above, hbase, habove⟩ := horderly.base
  obtain ⟨above', hwindows, habove'⟩ := h.windows
  refine ⟨⟨above' ++ above, by rw [hwindows, hbase, List.append_assoc], fun w hw => ?_⟩,
    h.listed horderly.listed⟩
  rcases List.mem_append.1 hw with hw | hw
  · exact habove' w hw
  · exact habove w hw

/-- The innermost window goes with its call. -/
theorem windows_unwound (m : Machine) (slots : Nat) :
    (m.unwound slots).windows = m.windows.tail := by
  show m.frames.dropTop.down.map Frame.window = _
  rw [Stack.down_dropTop, List.map_tail]
  rfl

theorem Listed.unwound (h : m.Listed) (slots : Nat) : (m.unwound slots).Listed := by
  let popped : Machine := { m with stack := m.stack.dropTop, frames := m.frames.dropTop }
  have hpopped : popped.Listed := h
  exact hpopped.closeCells slots

/-- Leaving a call that does not end the run. -/
theorem Orderly.unwound {f : Frame} {rest : List Frame} (h : m.Orderly)
    (hcalls : m.calls = f :: rest)
    (hresume : f.resume ≠ .finish) : (m.unwound f.slots).Orderly := by
  obtain ⟨above, hbase, habove⟩ := h.base
  refine ⟨?_, h.listed.unwound f.slots⟩
  cases above with
  | nil =>
    have hwindow : f.window = (0, .finish) := by
      rw [Machine.windows, hcalls] at hbase
      exact (List.cons.inj hbase).1
    exact absurd (congrArg Prod.snd hwindow) hresume
  | cons w above =>
    refine ⟨above, ?_, fun w' hw' => habove w' (List.mem_cons_of_mem w hw')⟩
    rw [windows_unwound, hbase]
    rfl

/-- Leaving the call that ends the run leaves nothing behind. -/
theorem Orderly.idle {f : Frame} {rest : List Frame} (h : m.Orderly) (hcalls : m.calls = f :: rest)
    (hresume : f.resume = .finish) : (m.unwound f.slots).Idle := by
  obtain ⟨above, hbase, habove⟩ := h.base
  have hwindows : m.windows = f.window :: rest.map Frame.window := by
    rw [Machine.windows, hcalls]
    rfl
  obtain rfl : above = [] := by
    cases above with
    | nil => rfl
    | cons w above =>
      have hw : w = f.window := (List.cons.inj (hbase.symm.trans hwindows)).1
      exact absurd (hw ▸ hresume) (habove w List.mem_cons_self)
  obtain ⟨hwindow, hrest⟩ := List.cons.inj (hwindows.symm.trans hbase)
  have hslots : f.slots = 0 := congrArg Prod.fst hwindow
  have hframes : (m.unwound f.slots).frames = .empty := by
    refine Stack.ext_down ?_
    show m.frames.dropTop.down = []
    rw [Stack.down_dropTop, show m.frames.down = f :: rest from hcalls]
    exact List.map_eq_nil_iff.1 hrest
  refine ⟨?_, hframes, ?_, ?_⟩
  · rw [hslots]
    exact Stack.ext_items (by simp [Machine.unwound, Stack.truncate, Stack.empty])
  · -- every cell that is looked through is open, so its slot is at or above the bottom
    rw [hslots]
    refine List.eq_nil_iff_forall_not_mem.2 fun id hid => ?_
    let popped : Machine := { m with stack := m.stack.dropTop, frames := m.frames.dropTop }
    obtain ⟨hmem, hbelow⟩ := mem_openCells_closeCells (m := popped).1 hid
    obtain ⟨slot, hslot⟩ := h.listed id hmem
    rw [opensAbove, Heap.cell, Array.getD_eq_getD_getElem?, show popped.heap = m.heap from rfl,
      hslot] at hbelow
    simp [Cell.slot?] at hbelow
  · rw [nesting, hframes]
    rfl

/-- **One step** of any code keeps a run in order, or ends it and leaves the machine idle. -/
theorem Orderly.step (h : m.Orderly) :
    (∀ m', Exec.step m = .ok none m' → m'.Orderly) ∧
      ∀ value m', Exec.step m = .ok (some value) m' → m'.Idle := by
  rcases Exec.step_cases m with ⟨op, -, hbecomes, hgoes⟩ | ⟨f, rest, value, hcalls, -, -, hstep⟩
  · refine ⟨fun m' hm' => ?_, fun value m' hm' => absurd hm' (hgoes value m')⟩
    rw [Exec.after_of_ok hm'] at hbecomes
    exact hbecomes.orderly h
  · rw [hstep]
    by_cases hresume : f.resume = .finish
    · have hend : Exec.resume value f.resume (m.unwound f.slots)
          = .ok (some value) (m.unwound f.slots) := by
        rw [hresume]
        rfl
      rw [hend]
      refine ⟨fun m' hm' => by simp at hm', fun value' m' hm' => ?_⟩
      injection hm' with _ hm'
      exact hm' ▸ h.idle hcalls hresume
    · have hbecomes := (@Exec.resume_changes .ret _ hresume value).becomes (m.unwound f.slots)
      refine ⟨fun m' hm' => ?_, fun value' m' hm' => ?_⟩
      · rw [Exec.after_of_ok hm'] at hbecomes
        exact hbecomes.orderly (h.unwound hcalls hresume)
      · exact absurd (Exec.resume_eq_none hresume hm') (by simp)

theorem Orderly.pause (h : m.Orderly) (pause : Pause) : (pause.apply m).Orderly :=
  ⟨h.base, h.listed⟩

/-- A call that is started has its callee below its arguments. -/
theorem enter_ok {closure : ClosureId} {arguments : UInt8} {resume : Resume} {u : Unit}
    (h : Exec.enter closure arguments resume m = .ok u m') :
    ∃ hsize, m' = { m with
      frames := m.frames.pushOf
        ⟨closure, 0, m.stack.size - (arguments.toNat + 1), resume⟩ hsize } := by
  have henter : Exec.enter closure arguments resume m =
      if (m.heap.functionOf closure).arity ≠ arguments then
        .error (.runtime (.arity (m.heap.functionOf closure).arity arguments)) m
      else (Exec.calleeSlot arguments >>= fun slots =>
        Exec.pushFrame ⟨closure, 0, slots, resume⟩) m := by
    show (if (m.heap.functionOf closure).arity ≠ arguments then _ else _ : Exec Unit) m = _
    split <;> rfl
  rw [henter] at h
  split at h
  · cases h
  · obtain ⟨slots, m₁, hslot, hframe⟩ := Exec.exists_of_bind_ok h
    change (if arguments.toNat < m.stack.size then pure (m.stack.size - (arguments.toNat + 1))
      else Exec.defect .stackUnderflow : Exec Nat) m = .ok slots m₁ at hslot
    split at hslot
    · injection hslot with hslots hm₁
      subst hslots hm₁
      unfold Exec.pushFrame at hframe
      split at hframe
      · next hsize =>
        injection hframe with _ hm'
        exact ⟨hsize, hm'.symm⟩
      · cases hframe
    · cases hslot

/-- A run that starts on an idle machine starts in order. -/
theorem Idle.launch (h : m.Idle) {function : FunctionId}
    (hlaunch : m.launch function = .running m') :
    m'.Orderly := by
  unfold Machine.launch at hlaunch
  split at hlaunch
  · next u m₀ hrun =>
    obtain rfl : m₀ = m' := by simpa using hlaunch
    obtain ⟨id, m₁, hallocate, hrun⟩ := Exec.exists_of_bind_ok hrun
    obtain ⟨_, m₂, hpush, henter⟩ := Exec.exists_of_bind_ok hrun
    injection hallocate with _ hm₁
    subst hm₁
    have hpushed := Exec.push_ok hpush
    have hempty : m.values = [] := by rw [values, h.stack]; rfl
    have hcalls : m₂.calls = [] := by
      rw [hpushed.calls]
      show m.frames.down = []
      rw [h.frames]
      rfl
    have hsize : m₂.stack.size = 1 := by
      rw [size_stack, hpushed.values]
      exact congrArg (·.length + 1) hempty
    obtain ⟨hframes, rfl⟩ := enter_ok henter
    refine ⟨⟨[], ?_, by simp⟩, fun cell hcell => ?_⟩
    · show (m₂.frames.pushOf _ hframes).down.map Frame.window = _
      rw [Stack.down_pushOf, show m₂.frames.down = [] from hcalls, hsize]
      rfl
    · have hcell : cell ∈ m.openCells := hpushed.openCells ▸ hcell
      rw [h.openCells] at hcell
      simp at hcell
  · simp at hlaunch

/-- The machines of a run are in order. -/
theorem Idle.visits (h : m.Idle) {function : FunctionId}
    (hvisits : (m.launch function).Visits m') : m'.Orderly := by
  induction hvisits with
  | start hlaunch => exact h.launch hlaunch
  | step _ hstep ih => exact ih.step.1 _ hstep
  | pause _ pause ih => exact ih.pause pause

/-- **A run that has ended** leaves the machine idle, whether it returned a value or failed. -/
theorem Idle.ends {last : Machine} {outcome : Except Fault Value} (h : m.Idle)
    {function : FunctionId} (hends : (m.launch function).Ends last outcome m') : m'.Idle := by
  cases hends with
  | returned hvisits hstep => exact (h.visits hvisits).step.2 _ _ hstep
  | failed _ _ => exact ⟨rfl, rfl, rfl, rfl⟩
  | unstarted _ => exact ⟨rfl, rfl, rfl, rfl⟩

/-! ## Loops along a run -/

/-- The next instruction is a return that leaves exactly `floor` calls, and ends the loop that
waited for the call that it leaves. -/
structure LeavesLoop (m : Machine) (floor : Nat) : Prop where
  /-- There is one call more before the return. -/
  size : m.frames.size = floor + 1
  /-- The return leaves the calls of the floor, and its result is what the loop waited for. -/
  leaves : ∃ m₁ value resume m₂, Exec.readOpcode m = .ok .ret m₁ ∧
    Exec.unwind m₁ = .ok (value, resume) m₂ ∧ m₂.frames.size = floor ∧ resume.endsLoop = true ∧
    Exec.step m = Exec.resume value resume m₂

/-- A loop is in progress with a floor. -/
def LoopsAbove (m : Machine) (floor : Nat) : Prop :=
  floor ∈ m.floors

/-- A loop has more calls than its floor. -/
theorem LoopsAbove.lt_size {floor : Nat} (h : m.LoopsAbove floor) : floor < m.frames.size := by
  obtain ⟨above, w, below, hwindows, rfl, -⟩ := exists_of_mem_floorsOf h
  rw [← length_windows, hwindows]
  simp
  omega

/-- The floors below stay when calls are made. -/
theorem mem_floorsOf_append {floor : Nat} {ws : List (Nat × Resume)} (above : List (Nat × Resume))
    (h : floor ∈ floorsOf ws) : floor ∈ floorsOf (above ++ ws) := by
  induction above with
  | nil => exact h
  | cons w above ih =>
    rw [List.cons_append, floorsOf]
    split
    · exact List.mem_cons_of_mem _ ih
    · exact ih

/-- Small changes leave the loops in progress. -/
theorem Becomes.loopsAbove {floor : Nat} {op : Opcode} (h : Becomes op m m')
    (hloop : m.LoopsAbove floor) :
    m'.LoopsAbove floor := by
  obtain ⟨above, hwindows, -⟩ := h.windows
  rw [LoopsAbove, floors, hwindows]
  exact mem_floorsOf_append above hloop

/-- **One step** of a loop: it goes on, or a return with exactly one call above the floor ends
it. -/
theorem LoopsAbove.step {floor : Nat} (h : m.LoopsAbove floor) (hnone : Exec.step m = .ok none m') :
    m'.LoopsAbove floor ∨ m.LeavesLoop floor := by
  rcases Exec.step_cases m with ⟨op, -, hbecomes, -⟩ |
    ⟨f, rest, value, hcalls, hret, hunwind, hstep⟩
  · rw [Exec.after_of_ok hnone] at hbecomes
    exact .inl (hbecomes.loopsAbove h)
  have hwindows : m.windows = f.window :: rest.map Frame.window := by
    rw [Machine.windows, hcalls]
    rfl
  have htail : (m.unwound f.slots).windows = rest.map Frame.window := by
    rw [windows_unwound, hwindows]
    rfl
  -- the loop waits for the call that is left, or for one below it
  by_cases hfloor : f.window.2.endsLoop = true ∧ floor = (rest.map Frame.window).length
  · obtain ⟨hends, rfl⟩ := hfloor
    refine .inr ⟨?_, m.moveTo (f.ip + 1), value, f.resume, m.unwound f.slots, hret, hunwind, ?_,
      hends, hstep⟩
    · rw [← length_windows, hwindows]
      rfl
    · rw [← length_windows, htail]
  · left
    have hbelow : (m.unwound f.slots).LoopsAbove floor := by
      rw [LoopsAbove, floors, hwindows, floorsOf] at h
      rw [LoopsAbove, floors, htail]
      split at h
      · next hends =>
        rcases List.mem_cons.1 h with heq | h
        · exact absurd ⟨hends, heq⟩ hfloor
        · exact h
      · exact h
    have hresume : f.resume ≠ .finish := by
      intro hfinish
      rw [hstep, hfinish] at hnone
      cases hnone
    have hbecomes := (@Exec.resume_changes .ret _ hresume value).becomes (m.unwound f.slots)
    rw [hstep] at hnone
    rw [Exec.after_of_ok hnone] at hbecomes
    exact hbecomes.loopsAbove hbelow

/-- **Along a run a loop stays above its floor**, until a return leaves exactly the calls of the
floor. -/
theorem LoopsAbove.visits {floor : Nat} (h : m.LoopsAbove floor)
    (hvisits : (Progress.running m).Visits m') :
    m'.LoopsAbove floor ∨ ∃ m₁, (Progress.running m).Visits m₁ ∧ m₁.LoopsAbove floor ∧
      m₁.LeavesLoop floor ∧ (Progress.running m₁).Visits m' := by
  induction hvisits with
  | start heq =>
    obtain rfl : m = _ := by simpa using heq
    exact .inl h
  | @step m₁ m₂ hvisits hstep ih =>
    rcases ih with hloop | ⟨m₃, hbefore, hloop, hleaves, hafter⟩
    · rcases hloop.step hstep with hloop' | hleaves
      · exact .inl hloop'
      · exact .inr ⟨m₁, hvisits, hloop, hleaves, .step (.start rfl) hstep⟩
    · exact .inr ⟨m₃, hbefore, hloop, hleaves, hafter.step hstep⟩
  | pause hvisits pause ih =>
    rcases ih with hloop | ⟨m₃, hbefore, hloop, hleaves, hafter⟩
    · exact .inl hloop
    · exact .inr ⟨m₃, hbefore, hloop, hleaves, hafter.pause pause⟩

/-! ## Sessions of any functions -/

/-- The machines between the runs of any functions whatsoever.  Before each run the heap may have
been given any objects, functions with any code among them; time may have passed and output may have
been taken away, also during a run. -/
inductive Served (natives : List Native) : Machine → Prop
  | new (sink : Sink) (now : Float) : Served natives (Machine.new natives sink now)
  | equip {m : Machine} (h : Served natives m) (heap : Heap) : Served natives { m with heap }
  | pause {m : Machine} (h : Served natives m) (pause : Pause) : Served natives (pause.apply m)
  | run {m m' : Machine} {outcome : Except Fault Value} (h : Served natives m)
      (function : FunctionId) (pauses : List Pause)
      (hrun : Runner.paced pauses (m.launch function) = some (outcome, m')) : Served natives m'

/-- The loops in progress at a machine of a run are the run itself and the evaluations inside
instructions, and each has more calls than its floor until a return leaves exactly those. -/
structure Looping (m : Machine) : Prop where
  /-- The outermost loop is the run, and there is one for each call inside an instruction. -/
  length : m.floors.length = m.nesting + 1
  /-- The floor of the run is zero. -/
  base : m.floors.getLast? = some 0
  /-- A loop has more calls than its floor, until the return that ends it. -/
  above : ∀ floor ∈ m.floors, floor < m.frames.size ∧
    ∀ m', (Progress.running m).Visits m' → floor < m'.frames.size ∨
      ∃ m₁, (Progress.running m).Visits m₁ ∧ m₁.LeavesLoop floor ∧ (Progress.running m₁).Visits m'

/-- The lowest loop is the run itself. -/
theorem getLast?_floorsOf (above : List (Nat × Resume)) {base : Nat × Resume}
    (hbase : base.2 = .finish) : (floorsOf (above ++ [base])).getLast? = some 0 := by
  induction above with
  | nil => simp [floorsOf, hbase, Resume.endsLoop]
  | cons w above ih =>
    rw [List.cons_append, floorsOf]
    split
    · rw [List.getLast?_cons, ih]
      rfl
    · exact ih

/-- Every machine of a run in order has its loops above their floors. -/
theorem Orderly.looping (h : m.Orderly) : m.Looping := by
  obtain ⟨above, hwindows, habove⟩ := h.base
  refine ⟨?_, ?_, fun floor hfloor => ⟨LoopsAbove.lt_size hfloor, fun m' hvisits => ?_⟩⟩
  · rw [floors, nesting_eq, hwindows]
    exact length_floorsOf habove rfl
  · rw [floors, hwindows]
    exact getLast?_floorsOf above rfl
  · rcases LoopsAbove.visits hfloor hvisits with hloop | ⟨m₁, hbefore, -, hleaves, hafter⟩
    · exact .inl hloop.lt_size
    · exact .inr ⟨m₁, hbefore, hleaves, hafter⟩

/-- **Between two runs a machine is idle**, whatever has been run. -/
theorem Served.idle {natives : List Native} (h : Served natives m) : m.Idle := by
  induction h with
  | new sink now => exact ⟨rfl, rfl, rfl, rfl⟩
  | equip _ heap ih => exact ⟨ih.stack, ih.frames, ih.openCells, ih.nesting⟩
  | pause _ pause ih => exact ⟨ih.stack, ih.frames, ih.openCells, ih.nesting⟩
  | run _ function pauses hrun ih =>
    obtain ⟨last, hends⟩ := Progress.ends_of_launch hrun
    exact ih.ends hends

/-- **Between runs a machine is idle**, whatever functions were run on it and however the runs
ended; and at every point of a run each loop in progress, the run itself and each evaluation inside
an instruction, has more calls than its floor until the return that ends it, which leaves exactly
those of the floor. -/
theorem Served.quiescent {natives : List Native} (h : Served natives m) :
    m.Idle ∧ ∀ function m', (m.launch function).Visits m' → m'.Looping :=
  ⟨h.idle, fun _ _ hvisits => (h.idle.visits hvisits).looping⟩

/-- A function whose code captures a slot that is not there and then breaks off with a byte that is
no opcode, and the function of its closure. -/
def brokenFunctions : Array Function :=
  let captures := [Opcode.closure.toByte, 0, 1, 5, 255]
  let chunk : Chunk := { Chunk.empty "broken" with
    code := captures.toArray, constants := #[.functionRef ⟨1⟩] }
  #[{ Function.empty "broken" .script with chunk },
    { Function.empty "inner" .function with captureCount := 1 }]

/-- Whether a run of a function ends with a defect, and with one cell. -/
def breaksWithCell (m : Machine) (function : FunctionId) : Bool :=
  match Runner.paced [⟨10, id, 0⟩] (m.launch function) with
  | some (.error (.internal _), m) => m.heap.cells.size == 1
  | _ => false

/-- A run of broken code fails with a cell open, and the machine is idle behind it. -/
theorem Served.quiescent_broken : ∃ (m : Machine) (defect : Defect), Served [] m ∧
    Runner.paced [⟨10, id, 0⟩] (({ Machine.new [] .reliable 0 with
      heap := { Heap.empty with functions := brokenFunctions } } : Machine).launch ⟨0⟩)
        = some (.error (.internal defect), m) ∧
    m.heap.cells.size = 1 ∧
    (m.Idle ∧ ∀ function m', (m.launch function).Visits m' → m'.Looping) := by
  let start : Machine := { Machine.new [] .reliable 0 with
    heap := { Heap.empty with functions := brokenFunctions } }
  have hchecked : start.breaksWithCell ⟨0⟩ = true := by decide +kernel
  unfold breaksWithCell at hchecked
  split at hchecked
  · next defect m hrun =>
    have hserved : Served [] m := .run (.equip (.new .reliable 0) _) ⟨0⟩ _ hrun
    exact ⟨m, defect, hserved, hrun, by simpa using hchecked, hserved.quiescent⟩
  · simp at hchecked

end Machine

end ScriptVM
