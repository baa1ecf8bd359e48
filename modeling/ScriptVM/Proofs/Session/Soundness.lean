/-
# Sessions never break

A session whose runs have returned values so far never finds compiled code broken in its next run,
and no class inherits from itself in it.  While a run goes on, the time moves and output is taken
away; a run is followed through any such pauses (`Runner.paced`).

Main statement: `Session.Reached.safe`.
-/
import ScriptVM.Proofs.Machine.Sound

namespace ScriptVM

/-! ## Runs with pauses -/

/-- A number of steps of a run, and what happens outside after them. -/
structure Pause where
  /-- The number of steps. -/
  steps : Nat
  /-- What becomes of the output. -/
  sink : Sink → Sink
  /-- The time. -/
  now : Float

/-- The machine after a pause. -/
def Pause.apply (pause : Pause) (m : Machine) : Machine :=
  { m with sink := pause.sink m.sink, now := pause.now }

/-- The runner that takes a run from pause to pause, and gives up after the last one. -/
def Runner.paced : List Pause → Runner Option
  | [], progress => progress.outcome?
  | pause :: rest, progress =>
    match progress.advance pause.steps with
    | .running m => paced rest (.running (pause.apply m))
    | ended => ended.outcome?

/-- A run without pauses. -/
theorem Runner.paced_singleton (pause : Pause) : Runner.paced [pause] = .limited pause.steps := by
  funext progress
  rw [paced, limited]
  split
  · next m h => rw [h]; rfl
  · rfl

/-- The machines that a run comes to. -/
inductive Machine.Progress.Visits (start : Machine.Progress) : Machine → Prop
  | start {m : Machine} (h : start = .running m) : Visits start m
  | step {m m' : Machine} (h : Visits start m) (hstep : Exec.step m = .ok none m') : Visits start m'
  | pause {m : Machine} (h : Visits start m) (pause : Pause) : Visits start (pause.apply m)

/-- A machine runs on at the same point behind a pause. -/
theorem RunsAt.pause {W : World} {m : Machine} {f : Frame} {rest : List Frame} {bp : Blueprint}
    {X below : Shape} {st : Stage} (h : RunsAt W m f rest bp X below st) (pause : Pause) :
    RunsAt W (pause.apply m) f rest bp X below st := by
  refine ⟨?_, h.calls, h.function, h.slots, h.waits, h.point, ?_⟩
  · exact ⟨h.typed.heap, h.typed.globals, h.typed.values, h.typed.cells⟩
  · have hst := h.stage
    cases st with
    | fresh home =>
      obtain ⟨id, hblank, hhome, halone⟩ := hst
      refine ⟨id, hblank, hhome, fun htrusted => ?_⟩
      obtain ⟨hslots, hglobals, hcells⟩ := halone htrusted
      exact ⟨hslots, hglobals, fun cell hcell hv => hcells cell hcell (hv.congr rfl rfl)⟩
    | _ => exact hst

/-- What happens outside does not disturb a run. -/
theorem Machine.Running.pause {ground : Ground} {m : Machine} (h : m.Running ground)
    (pause : Pause) : (pause.apply m).Running ground := by
  obtain ⟨W, f, rest, bp, X, below, st, hground, h⟩ := h
  exact ⟨W, f, rest, bp, X, below, st, hground, h.pause pause⟩

/-- **Wherever a sound run comes, the machine is running**. -/
theorem Machine.Progress.Sound.visits {ground : Ground} {start : Machine.Progress}
    {m : Machine} (h : start.Sound ground) (hm : start.Visits m) : m.Running ground := by
  induction hm with
  | start heq =>
    subst heq
    exact h
  | step _ hstep ih =>
    have hcontinues := step_continues ih
    rw [Exec.Ensures, hstep] at hcontinues
    exact hcontinues
  | pause _ pause ih => exact ih.pause pause

/-- The end of a run, and the machine it was last at: before the step that returned a value, or
where the run failed. -/
inductive Machine.Progress.Ends (start : Machine.Progress) (last : Machine) :
    Except Fault Value → Machine → Prop
  | returned {value : Value} {m : Machine} (h : start.Visits last)
      (hstep : Exec.step last = .ok (some value) m) : Ends start last (.ok value) m
  | failed {fault : Fault} {before : Machine} (h : start.Visits before)
      (hstep : Exec.step before = .error fault last) :
      Ends start last (.error fault) (last.abandon fault)
  | unstarted {fault : Fault} (h : start = .failed fault last) :
      Ends start last (.error fault) (last.abandon fault)

namespace Machine.Progress

variable {start : Machine.Progress} {m : Machine} {outcome : Except Fault Value} {m' : Machine}

/-- A run that has ended after a number of steps has come to its end. -/
theorem Visits.ends_of_advance (h : start.Visits m) {steps : Nat}
    (hend : (m.advance steps).outcome? = some (outcome, m')) :
    ∃ last, start.Ends last outcome m' := by
  induction steps generalizing m with
  | zero => simp [Machine.advance, outcome?] at hend
  | succ steps ih =>
    rw [Machine.advance] at hend
    split at hend
    · next m₁ hstep => exact ih (h.step hstep) hend
    · next value m₁ hstep =>
      obtain ⟨rfl, rfl⟩ : _ ∧ _ := by simpa [outcome?] using hend
      exact ⟨m, .returned h hstep⟩
    · next fault m₁ hstep =>
      obtain ⟨rfl, rfl⟩ : _ ∧ _ := by simpa [outcome?] using hend
      exact ⟨m₁, .failed h hstep⟩

/-- A run that goes on after a number of steps has come there. -/
theorem Visits.advance (h : start.Visits m) {steps : Nat} (hm : m.advance steps = .running m') :
    start.Visits m' := by
  induction steps generalizing m with
  | zero =>
    obtain rfl : m = m' := by simpa [Machine.advance] using hm
    exact h
  | succ steps ih =>
    rw [Machine.advance] at hm
    split at hm
    · next m₁ hstep => exact ih (h.step hstep) hm
    · simp at hm
    · simp at hm

/-- A run through some pauses has its end where it was last at. -/
theorem Visits.ends_of_paced (h : start.Visits m) {pauses : List Pause}
    (hend : Runner.paced pauses (.running m) = some (outcome, m')) :
    ∃ last, start.Ends last outcome m' := by
  induction pauses generalizing m with
  | nil => simp [Runner.paced, outcome?] at hend
  | cons pause rest ih =>
    rw [Runner.paced] at hend
    split at hend
    · next m₁ hm => exact ih ((h.advance hm).pause pause) hend
    · exact h.ends_of_advance hend

/-- **A run that has an outcome** has come to its end. -/
theorem ends_of_launch {function : FunctionId} {pauses : List Pause}
    (h : Runner.paced pauses (m.launch function) = some (outcome, m')) :
    ∃ last, (m.launch function).Ends last outcome m' := by
  unfold Machine.launch at h ⊢
  split at h
  · exact Visits.ends_of_paced (.start rfl) h
  · next fault last _ =>
    have hfailed : Runner.paced pauses (.failed fault last)
        = some (.error fault, last.abandon fault) := by
      cases pauses with
      | nil => rfl
      | cons pause rest => rfl
    obtain ⟨rfl, rfl⟩ := Prod.mk.inj (Option.some.inj (hfailed.symm.trans h))
    exact ⟨last, .unstarted rfl⟩

end Machine.Progress

/-! ## Between two runs -/

/-- A machine with the functions of some blueprints between two runs: its stacks are empty, and the
cells that are open are those of earlier runs. -/
def Machine.RestsWith (blueprints : List Blueprint) (m : Machine) : Prop :=
  m.Quiet ⟨blueprints, m.heap.slots⟩

/-- A machine between two runs. -/
def Machine.Rests (m : Machine) : Prop :=
  ∃ blueprints, m.RestsWith blueprints

/-- A cell is open if and only if it has a slot. -/
theorem Heap.opens_iff {heap : Heap} {id : CellId} :
    heap.Opens id ↔ ∃ slot, heap.slots[id.index]? = some (some slot) := by
  rw [Heap.Opens, Heap.slots]
  refine exists_congr fun slot => ?_
  rw [List.getElem?_map, Array.getElem?_toList, Option.map_eq_some_iff]
  constructor
  · exact fun h => ⟨_, h, rfl⟩
  · rintro ⟨cell, hcell, hslot⟩
    cases cell with
    | openAt slot' => rw [hcell, Option.some.inj hslot]
    | closed v => simp [Cell.slot?] at hslot

/-- A heap is trusted if no cell of it stands for a slot. -/
theorem Heap.trusted_iff {heap : Heap} : Trusted heap.slots ↔ ∀ id, ¬heap.Opens id := by
  constructor
  · intro h id hid
    obtain ⟨slot, hslot⟩ := opens_iff.1 hid
    exact absurd (h _ (List.mem_of_getElem? hslot)) (by simp)
  · intro h slot hslot
    obtain ⟨i, hi⟩ := List.mem_iff_getElem?.1 hslot
    cases slot with
    | none => rfl
    | some n => exact absurd (opens_iff.2 ⟨n, hi⟩) (h ⟨i⟩)

namespace Machine

variable {ground : Ground} {m : Machine}

/-- The cells of earlier runs are as they were. -/
theorem Survives.isPrefix_slots (h : m.Survives ground) : ground.stale <+: m.heap.slots := by
  obtain ⟨W, rfl, hheap, -⟩ := h
  exact hheap.stale

/-- A machine with empty stacks is between two runs. -/
theorem Survives.rests (h : m.Survives ground) (hvalues : m.values = []) (hcalls : m.calls = [])
    (hopen : m.openCells = []) : m.RestsWith ground.blueprints := by
  obtain ⟨W, rfl, hheap, hglobals⟩ := h
  let V : World := { W with stale := m.heap.slots }
  have hle : W.Le V :=
    { World.Le.refl W with trusted := fun h slot hslot => h slot (hheap.stale.subset hslot) }
  refine ⟨⟨V, rfl, ?_, hglobals.imp fun _ hv => hv.mono hle, ?_, ?_⟩, hcalls⟩
  · exact {
      table := hheap.table
      closures := hheap.closures.imp fun _ _ hok => hok.mono hle
      cells := hheap.cells.imp fun _ _ hok => hok.mono hle
      size_classes := hheap.size_classes
      classes := fun c hc => (hheap.classes c hc).mono hle
      instances := fun i hi => (hheap.instances i hi).imp fun _ hv => hv.mono hle
      stale := List.prefix_rfl }
  · rw [hvalues]
    exact .nil
  · refine ⟨by simp [hopen], fun i slot hnew hi => ?_⟩
    have hsize : m.heap.cells.size ≤ i := by
      rw [← Array.length_toList, ← List.length_map]
      exact hnew
    rw [Array.getElem?_eq_none hsize] at hi
    simp at hi

theorem Quiet.survives (h : m.Quiet ground) : m.Survives ground := by
  obtain ⟨⟨W, rfl, hat⟩, -⟩ := h
  exact hat.survives

/-- Behind a run that returned a value no cell of the run is open. -/
theorem Quiet.lt_of_opens (h : m.Quiet ground) {id : CellId} (hid : m.heap.Opens id) :
    id.index < ground.stale.length := by
  obtain ⟨⟨W, rfl, hat⟩, -⟩ := h
  obtain ⟨slot, hslot⟩ := hid
  refine Nat.lt_of_not_le fun hnew => ?_
  obtain ⟨-, kind, -, hshape⟩ := hat.cells.opened _ _ hnew hslot
  simp [slot?] at hshape

/-- A machine behind a run is at rest. -/
theorem Quiet.rests (h : m.Quiet ground) : m.RestsWith ground.blueprints := by
  refine h.survives.rests ?_ h.calls ?_
  · obtain ⟨⟨W, -, hat⟩, -⟩ := h
    exact List.forall₂_nil_right_iff.1 hat.values
  · refine List.eq_nil_iff_forall_not_mem.2 fun id hid => ?_
    obtain ⟨W, hstale, hat⟩ := h.typed
    obtain ⟨hthis, hopens⟩ := hat.cells.known id hid
    rw [hstale] at hthis
    exact absurd (h.lt_of_opens hopens) (Nat.not_lt.2 hthis)

/-- Behind a run that returned a value no cell is open if none was open before. -/
theorem Quiet.trusted (h : m.Quiet ground) (htrusted : Trusted ground.stale) :
    Trusted m.heap.slots := by
  refine Heap.trusted_iff.2 fun id hid => ?_
  have hlt := h.lt_of_opens hid
  obtain ⟨slot, hslot⟩ := Heap.opens_iff.1 hid
  have hold := getElem?_of_isPrefix h.survives.isPrefix_slots (List.getElem?_eq_getElem hlt)
  rw [hslot, htrusted _ (List.getElem_mem hlt)] at hold
  simp at hold

theorem Breaks.rests {fault : Fault} (h : m.Breaks ground fault) : (m.abandon fault).Rests :=
  ⟨_, Survives.rests (m := m.abandon fault) h.survives rfl rfl rfl⟩

end Machine

/-! ## Starting a run -/

/-- The table of functions of a heap may grow. -/
theorem Heap.Ok.withFunctions {W : World} {heap : Heap} (h : heap.Ok W)
    {blueprints : List Blueprint}
    {functions : Array Function} (hle : W.blueprints <+: blueprints)
    (htable : TableFits blueprints functions.toList) :
    Heap.Ok { W with blueprints } { heap with functions } := by
  have hle : W.Le { W with blueprints } := { World.Le.refl W with blueprints := hle }
  exact {
    table := htable
    closures := h.closures.imp fun _ _ hok => hok.mono hle
    cells := h.cells.imp fun _ _ hok => hok.mono hle
    size_classes := h.size_classes
    classes := fun c hc => (h.classes c hc).mono hle
    instances := fun i hi => (h.instances i hi).imp fun _ hv => hv.mono hle
    stale := h.stale }

/-- The machine with the functions of a program. -/
def Machine.load (m : Machine) (program : Program) : Machine :=
  { m with heap := { m.heap with functions := program.functions } }

/-- The machine with the functions of a program is as its blueprints say. -/
theorem At.load {W : World} {m : Machine} (h : At W [] m) {blueprints : List Blueprint}
    {program : Program} (hle : W.blueprints <+: blueprints)
    (htable : TableFits blueprints program.functions.toList) :
    At { W with blueprints } [] (m.load program) := by
  have hle' : W.Le { W with blueprints } := { World.Le.refl W with blueprints := hle }
  exact ⟨h.heap.withFunctions hle htable, h.globals.imp fun _ hv => hv.mono hle',
    h.values.imp fun _ _ hv => hv.mono hle', ⟨h.cells.known, h.cells.opened⟩⟩

/-- The first call of a run. -/
theorem Exec.launch_ready {W : World} {m : Machine} {function : FunctionId} {bp : Blueprint}
    (h : At W [] m) (hcalls : m.calls = []) (hbp : W.blueprints[function.index]? = some bp)
    (hcaptures : bp.captures = []) (hmember : bp.isMember = false) :
    Ensures W.toGround (launch function) m fun _ m' => m'.Ready W.toGround := by
  have hclosure : Closure.Ok W ⟨function, #[]⟩ bp := ⟨hbp, hcaptures ▸ .nil⟩
  have hle := W.le_withClosure bp
  have hnew : (W.withClosure bp).closures[m.heap.closures.size]? = some bp := by
    rw [← Array.length_toList, h.heap.closures.length_eq]
    simp [World.withClosure]
  let made : Machine := { m with heap := (m.heap.newClosure ⟨function, #[]⟩).2 }
  have hmade : At (W.withClosure bp) [] made :=
    ⟨h.heap.newClosure hclosure, h.globals.imp fun _ hv => hv.mono hle,
      h.values.imp fun _ _ hv => hv.mono hle, ⟨h.cells.known, h.cells.opened⟩⟩
  refine Ensures.bind_of_eq (show allocate (·.newClosure ⟨function, #[]⟩) m
    = .ok ⟨m.heap.closures.size⟩ made from rfl) ?_
  refine (push_at (s := .temp .callee) hmade (.callee (.closure hnew fun _ => hmember))).bind ?_
  rintro - m' ⟨hat, hcalls'⟩
  have hreceiver := (hat.heap.functionOf hnew).receiver
  rw [hmember] at hreceiver
  refine enter_ready hat hnew rfl hreceiver.symm ?_
  rw [hcalls', show made.calls = m.calls from rfl, hcalls]
  exact .finish

/-- A compiled source that is started between two runs is ready for its first instruction. -/
theorem Machine.RestsWith.launch_ready {m : Machine} {blueprints : List Blueprint} {source : String}
    {program : Program} (h : m.RestsWith blueprints)
    (hcompile : Program.compileAfter m.heap.functions source = .ok program) :
    ∃ blueprints', blueprints <+: blueprints' ∧
      Exec.Ensures ⟨blueprints', m.heap.slots⟩ (Exec.launch program.main) (m.load program)
        fun _ m' => m'.Ready ⟨blueprints', m.heap.slots⟩ := by
  obtain ⟨⟨W, hground, hat⟩, hcalls⟩ := h
  obtain ⟨bps, bp, hle, -, htable, hmain, hcaptures, hmember, -⟩ :=
    compileAfter_fits hcompile hat.heap.table
  have hbp : (bps ++ [bp])[program.main.index]? = some bp := by
    rw [hmain]
    simp
  have hloaded := hat.load (hle.trans (List.prefix_append _ _)) htable
  have hready := Exec.launch_ready hloaded hcalls hbp hcaptures hmember
  have hblueprints : W.blueprints = blueprints := congrArg Ground.blueprints hground
  have hstale : W.stale = m.heap.slots := congrArg Ground.stale hground
  refine ⟨bps ++ [bp], hblueprints ▸ hle.trans (List.prefix_append _ _), ?_⟩
  rw [← hstale]
  exact hready

/-- **A compiled source starts well** between two runs. -/
theorem Machine.RestsWith.launch {m : Machine} {blueprints : List Blueprint} {source : String}
    {program : Program} (h : m.RestsWith blueprints)
    (hcompile : Program.compileAfter m.heap.functions source = .ok program) :
    ∃ blueprints', blueprints <+: blueprints' ∧
      ((m.load program).launch program.main).Sound ⟨blueprints', m.heap.slots⟩ := by
  obtain ⟨blueprints', hle, hready⟩ := h.launch_ready hcompile
  refine ⟨blueprints', hle, ?_⟩
  unfold Machine.launch
  rcases hready.cases with ⟨_, m', hlaunch, hready⟩ | ⟨fault, m', hlaunch, hbreaks⟩
  · rw [hlaunch]
    exact hready.runsOn.running
  · rw [hlaunch]
    exact hbreaks

/-- **The run of a source that compiles is sound**, on any machine at rest. -/
theorem Machine.Rests.launch {m : Machine} {source : String} {program : Program} (h : m.Rests)
    (hcompile : Program.compileAfter m.heap.functions source = .ok program) :
    ∃ blueprints, ((m.load program).launch program.main).Sound ⟨blueprints, m.heap.slots⟩ := by
  obtain ⟨blueprints, h⟩ := h
  obtain ⟨blueprints', -, hsound⟩ := h.launch hcompile
  exact ⟨blueprints', hsound⟩

namespace Machine.Progress.Sound

variable {ground : Ground} {start : Machine.Progress} {last m : Machine}

/-- A sound run that returns a value leaves the machine quiet. -/
theorem returned {value : Value} (h : start.Sound ground) (hend : start.Ends last (.ok value) m) :
    m.Quiet ground := by
  cases hend with
  | returned hvisits hstep =>
    have hcontinues := step_continues (h.visits hvisits)
    rw [Exec.Ensures, hstep] at hcontinues
    exact hcontinues

/-- A sound run that fails does so because of the program, and is abandoned. -/
theorem failed {fault : Fault} (h : start.Sound ground)
    (hend : start.Ends last (.error fault) m) :
    last.Breaks ground fault ∧ m = last.abandon fault := by
  cases hend with
  | failed hvisits hstep =>
    have hbreaks := step_continues (h.visits hvisits)
    rw [Exec.Ensures, hstep] at hbreaks
    exact ⟨⟨hbreaks.1, hbreaks.2⟩, rfl⟩
  | unstarted hstart =>
    subst hstart
    exact ⟨h, rfl⟩

end Machine.Progress.Sound

/-! ## Sessions -/

/-- A native function that is found by its name is one of those that were given. -/
theorem exists_native_of_findEntry {natives : List Native} {name : String} {v : Value}
    (h : Bindings.findEntry name (natives.map fun n => (n.name, Value.native n)) = some v) :
    ∃ n ∈ natives, v = .native n := by
  induction natives with
  | nil => simp [Bindings.findEntry] at h
  | cons n rest ih =>
    rw [List.map_cons, Bindings.findEntry] at h
    split at h
    · exact ⟨n, List.mem_cons_self, (Option.some.inj h).symm⟩
    · obtain ⟨n', hn', hv⟩ := ih h
      exact ⟨n', List.mem_cons_of_mem n hn', hv⟩

/-- A machine comes to another one when it runs a source that compiles. -/
def Machine.Executes (m : Machine) (source : String) (m' : Machine) : Prop :=
  ∃ program, Program.compileAfter m.heap.functions source = .ok program ∧
    ((m.load program).launch program.main).Visits m'

namespace Session

/-- The sessions that come from a new one by runs that returned values. -/
inductive Reached (natives : List Native) : Session → Prop
  | new (sink : Sink) (now : Float) : Reached natives (Session.new natives sink now)
  | pause {s : Session} (h : Reached natives s) (pause : Pause) :
      Reached natives { s with machine := pause.apply s.machine }
  | run {s s' : Session} {source : String} {value : Value} (h : Reached natives s)
      (pauses : List Pause) (hrun : s.run (.paced pauses) source = some (.ok value, s')) :
      Reached natives s'
  | interpret {s s' : Session} {source : String} {value : Value} (h : Reached natives s)
      (pauses : List Pause)
      (hinterpret : s.interpret (.paced pauses) source = some (.ok value, s')) :
      Reached natives s'

/-- The next run of a session, of one or the other kind, never finds the code broken, and no class
inherits from itself in it. -/
structure Safe (s : Session) (source : String) : Prop where
  /-- A run that fails does so because of the program. -/
  run : ∀ pauses fault s', s.run (.paced pauses) source = some (.error (.fault fault), s') →
    ∃ e, fault = .runtime e
  /-- A run after the prelude that fails does so because of the program. -/
  interpret : ∀ pauses fault s',
    s.interpret (.paced pauses) source = some (.error (.fault fault), s') → ∃ e, fault = .runtime e
  /-- No class inherits from itself when the source is run. -/
  inherits : ∀ m, s.machine.Executes source m → ¬m.InheritsItself
  /-- No class inherits from itself when the prelude is run. -/
  preludeInherits : ∀ m, s.machine.Executes prelude m → ¬m.InheritsItself
  /-- No class inherits from itself when the source is run after the prelude. -/
  laterInherits : ∀ pauses s' m, s.loadPrelude (.paced pauses) = some (.ok (), s') →
    s'.machine.Executes source m → ¬m.InheritsItself

variable {s s' : Session} {source : String} {pauses : List Pause} {outcome : Interpreted}
  {natives : List Native}

/-- A session that runs a compiled source to its end becomes another one; the machine was last at
another machine in this run. -/
def Runs (s : Session) (source : String) (last : Machine) (outcome : Except Fault Value)
    (s' : Session) : Prop :=
  ∃ program, Program.compileAfter s.machine.heap.functions source = .ok program ∧
    ((s.machine.load program).launch program.main).Ends last outcome s'.machine

/-- A run does not compile its source, or comes to its end. -/
theorem run_cases (h : s.run (.paced pauses) source = some (outcome, s')) :
    (s' = s ∧ ∃ errors, outcome = .error (.compile errors)) ∨
      ∃ last result, s.Runs source last result s' ∧ outcome = result.mapError .fault := by
  unfold Session.run at h
  split at h
  · next errors _ =>
    obtain ⟨rfl, rfl⟩ : _ ∧ _ := by simpa using h
    exact .inl ⟨rfl, errors, rfl⟩
  · next program hcompile =>
    obtain ⟨⟨result, m⟩, hpaced, hreturn⟩ := Option.bind_eq_some_iff.1 h
    obtain ⟨rfl, rfl⟩ := Prod.mk.inj (Option.some.inj hreturn)
    obtain ⟨last, hends⟩ := Machine.Progress.ends_of_launch hpaced
    exact .inr ⟨last, result, ⟨program, hcompile, hends⟩, rfl⟩

/-- A machine at rest comes to rest again, however a run ends. -/
theorem Runs.rests {last : Machine} {result : Except Fault Value} (h : s.Runs source last result s')
    (hrests : s.machine.Rests) : s'.machine.Rests := by
  obtain ⟨program, hcompile, hends⟩ := h
  obtain ⟨blueprints, hsound⟩ := hrests.launch hcompile
  cases result with
  | ok value => exact ⟨blueprints, (hsound.returned hends).rests⟩
  | error fault =>
    obtain ⟨hbreaks, heq⟩ := hsound.failed hends
    rw [heq]
    exact hbreaks.rests

/-- A machine is at rest, and no cell is open. -/
structure Clean (s : Session) : Prop where
  /-- The machine is at rest. -/
  rests : s.machine.Rests
  /-- No cell is open. -/
  trusted : Trusted s.machine.heap.slots

/-- A run on a clean session returns a value and leaves it clean, or fails because of the
program. -/
theorem run_sound (hclean : s.Clean) (h : s.run (.paced pauses) source = some (outcome, s')) :
    (∀ value, outcome = .ok value → s'.Clean) ∧
      ∀ fault, outcome = .error (.fault fault) → ∃ e, fault = .runtime e := by
  rcases run_cases h with ⟨-, errors, rfl⟩ | ⟨last, result, hruns, rfl⟩
  · exact ⟨by simp, by simp⟩
  · obtain ⟨program, hcompile, hends⟩ := hruns
    obtain ⟨blueprints, hsound⟩ := hclean.rests.launch hcompile
    cases result with
    | ok value =>
      have hquiet := hsound.returned hends
      exact ⟨fun _ _ => ⟨⟨_, hquiet.rests⟩, hquiet.trusted hclean.trusted⟩, by
        simp [Except.mapError]⟩
    | error fault =>
      refine ⟨by simp [Except.mapError], fun fault' hfault => ?_⟩
      obtain rfl : fault = fault' := by simpa [Except.mapError] using hfault
      exact (hsound.failed hends).1.runtime hclean.trusted

/-- The prelude leaves a clean session clean if it is loaded, and fails because of the program
only. -/
theorem loadPrelude_sound {result : Except InterpretError Unit} (hclean : s.Clean)
    (h : s.loadPrelude (.paced pauses) = some (result, s')) :
    (result = .ok () → s'.Clean) ∧
      ∀ fault, result = .error (.fault fault) → ∃ e, fault = .runtime e := by
  unfold loadPrelude at h
  split at h
  · obtain ⟨rfl, rfl⟩ := Prod.mk.inj (Option.some.inj h)
    exact ⟨fun _ => hclean, by simp⟩
  · obtain ⟨⟨outcome, s''⟩, hrun, hreturn⟩ := Option.bind_eq_some_iff.1 h
    obtain ⟨rfl, rfl⟩ := Prod.mk.inj (Option.some.inj hreturn)
    have hclean' : Clean { s with preludeLoaded := true } := ⟨hclean.rests, hclean.trusted⟩
    obtain ⟨hok, herror⟩ := run_sound hclean' hrun
    cases outcome with
    | ok value => exact ⟨fun _ => hok value rfl, by simp [Except.map]⟩
    | error e =>
      refine ⟨by simp [Except.map], fun fault hfault => herror fault ?_⟩
      simpa [Except.map] using hfault

/-- A source leaves a clean session clean if it returns a value, and fails because of the program
only. -/
theorem interpret_sound (hclean : s.Clean)
    (h : s.interpret (.paced pauses) source = some (outcome, s')) :
    (∀ value, outcome = .ok value → s'.Clean) ∧
      ∀ fault, outcome = .error (.fault fault) → ∃ e, fault = .runtime e := by
  obtain ⟨⟨result, s''⟩, hload, hrest⟩ := Option.bind_eq_some_iff.1 h
  obtain ⟨hok, herror⟩ := loadPrelude_sound hclean hload
  cases result with
  | ok _ => exact run_sound (hok rfl) hrest
  | error e =>
    obtain ⟨rfl, rfl⟩ := Prod.mk.inj (Option.some.inj hrest)
    exact ⟨by simp, fun fault hfault => herror fault (by simpa using hfault)⟩

/-- A new session is clean. -/
theorem clean_new (natives : List Native) (sink : Sink) (now : Float) :
    (Session.new natives sink now).Clean := by
  refine ⟨⟨[], ⟨.empty, rfl, .empty, ?_, .nil, ?_⟩, rfl⟩, by
    simp [Trusted, Heap.slots, Session.new, Machine.new, Heap.empty]⟩
  · refine Bindings.All.merge .empty ?_
    intro name v hv
    obtain ⟨native, -, rfl⟩ := exists_native_of_findEntry hv
    exact .plain rfl
  · exact ⟨by simp [Session.new, Machine.new], by simp [Session.new, Machine.new, Heap.empty]⟩

theorem Clean.pause (h : s.Clean) (pause : Pause) :
    Clean { s with machine := pause.apply s.machine } := by
  obtain ⟨⟨blueprints, ⟨W, hground, hat⟩, hcalls⟩, htrusted⟩ := h
  exact ⟨⟨blueprints, ⟨W, hground, hat.heap, hat.globals, hat.values, hat.cells⟩, hcalls⟩, htrusted⟩

/-- **Between its runs a session whose runs have returned values is clean.** -/
theorem Reached.clean (h : Reached natives s) : s.Clean := by
  induction h with
  | new sink now => exact clean_new natives sink now
  | pause _ pause ih => exact ih.pause pause
  | run _ pauses hrun ih => exact (run_sound ih hrun).1 _ rfl
  | interpret _ pauses hinterpret ih => exact (interpret_sound ih hinterpret).1 _ rfl

/-- In a clean session no class inherits from itself. -/
theorem Clean.not_inheritsItself {m : Machine} (hclean : s.Clean)
    (h : s.machine.Executes source m) : ¬m.InheritsItself := by
  obtain ⟨program, hcompile, hvisits⟩ := h
  obtain ⟨blueprints, hsound⟩ := hclean.rests.launch hcompile
  exact (hsound.visits hvisits).not_inheritsItself hclean.trusted

/-- **Compiled code never breaks a session** whose runs have returned values so far. -/
theorem Reached.safe (h : Reached natives s) (source : String) : s.Safe source where
  run _ fault _ hrun := (run_sound h.clean hrun).2 fault rfl
  interpret _ fault _ hinterpret := (interpret_sound h.clean hinterpret).2 fault rfl
  inherits _ hm := h.clean.not_inheritsItself hm
  preludeInherits _ hm := h.clean.not_inheritsItself hm
  laterInherits _ _ _ hload hm :=
    ((loadPrelude_sound h.clean hload).1 rfl).not_inheritsItself hm

/-- Whether a run returns a value and leaves a session that passes a check. -/
def returns (s : Session) (runner : Runner Option) (source : String)
    (check : Session → Bool) : Bool :=
  match s.run runner source with
  | some (.ok _, s') => check s'
  | _ => false

/-- A check of a run that returns gives the value and the session. -/
theorem exists_of_returns {s : Session} {runner : Runner Option} {source : String}
    {check : Session → Bool} (h : s.returns runner source check = true) :
    ∃ value s', s.run runner source = some (.ok value, s') ∧ check s' = true := by
  unfold returns at h
  split at h
  · next value s' hrun => exact ⟨value, s', hrun, h⟩
  · cases h

/-- A class inherits from one that an earlier run declared. -/
theorem Reached.safe_derived : ∃ s, Reached Native.all s ∧ s.Safe "class Derived: Base \x7b \x7d" ∧
    ∃ value s', s.run (.limited 100) "class Derived: Base \x7b \x7d" = some (.ok value, s') := by
  have hchecked : (Session.new Native.all .reliable 0).returns (.paced [⟨100, id, 0⟩])
      "class Base \x7b \x7d" (·.returns
        (.limited 100) "class Derived: Base \x7b \x7d" fun _ => true)
      = true := by
    decide +kernel
  obtain ⟨value, s, hfirst, hchecked⟩ := exists_of_returns hchecked
  obtain ⟨value', s', hsecond, -⟩ := exists_of_returns hchecked
  have hreached := Reached.run (.new .reliable 0) _ hfirst
  exact ⟨s, hreached, hreached.safe _, value', s', hsecond⟩

end Session

end ScriptVM
