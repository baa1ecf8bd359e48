/-
# Lines of a program

A program may be given to a session in one piece or line by line.  Whether two lines are interpreted
one after the other or at once, they return or fail together, write the same, and leave the same
objects and global variables, up to the numbers of functions and closures (`Session.SameAs`).

While the first line runs, a run of both lines is abreast of it; behind it the other run goes on,
and is abreast of the run of the second line.

Main statement: `Session.Reached.interprets_newline`.
-/
import ScriptVM.Proofs.Machine.EmbeddedRuns
import ScriptVM.Proofs.Machine.Succession
import ScriptVM.Proofs.Session.Prelude

namespace ScriptVM

/-! ## Starting a script -/

/-- A script that has been started between two runs. -/
structure Machine.Starts (m : Machine) (program : Program) (ground : Ground) (extent : Nat)
    (m₀ : Machine) : Prop where
  /-- The run has started. -/
  launches : (m.load program).launch program.main = .running m₀
  /-- The script is the only call. -/
  begins : (m.load program).Begins program.main m₀
  /-- The run is sound. -/
  running : m₀.Running ground
  /-- The cells of earlier runs are as they were. -/
  stale : ground.stale = m.heap.slots
  /-- The script has some declarations. -/
  script : ∃ bp, ground.blueprints[program.main.index]? = some bp ∧ bp.Script extent
  /-- Its code is that of its declarations and that of its end. -/
  size : (program.functions.getD program.main.index default).chunk.size = extent + scriptEnd.length
  /-- No function refers to it. -/
  refer : Function.ReferBelow program.main.index program.functions

/-- The functions of a table and a script behind it refer to functions of the table. -/
theorem Function.referBelow_push {bps : List Blueprint} {fs : Array Function} {f : Function}
    (hfs : TableFits bps fs.toList) (hf : ConstantsOk fs.size f.chunk.constants) :
    ReferBelow fs.size (fs.push f) := by
  intro i id hid
  have hsize : bps.length = fs.size := by
    rw [← Array.length_toList, hfs.length_eq]
  rw [Array.getD_eq_getD_getElem?, Array.getElem?_push] at hid
  split at hid
  · exact hf.references id hid
  · cases hi : fs[i]? with
    | none =>
      rw [hi] at hid
      exact absurd hid List.not_mem_nil
    | some e =>
      rw [hi] at hid
      rw [← Array.getElem?_toList] at hi
      obtain ⟨bp, -, hfits⟩ := exists_mem_of_forall₂ hfs (List.mem_of_getElem? hi)
      exact hsize ▸ hfits.constants.references id hid

/-- Between two runs a machine is idle. -/
theorem Machine.RestsWith.idle {m : Machine} {blueprints : List Blueprint}
    (h : m.RestsWith blueprints) : m.Idle := by
  obtain ⟨⟨W, hground, hat⟩, hcalls⟩ := h
  have hframes : m.frames = .empty := Stack.ext_down hcalls
  refine ⟨Stack.ext_down (List.forall₂_nil_right_iff.1 hat.values), hframes, ?_, ?_⟩
  · refine List.eq_nil_iff_forall_not_mem.2 fun id hid => ?_
    obtain ⟨hnew, slot, hcell⟩ := hat.cells.known id hid
    have hlt := (Array.getElem?_eq_some_iff.1 hcell).1
    rw [congrArg Ground.stale hground, Heap.slots, List.length_map, Array.length_toList] at hnew
    exact absurd hlt (Nat.not_lt.2 hnew)
  · rw [Machine.nesting, hframes]
    rfl

/-- **A compiled source starts** between two runs. -/
theorem Machine.RestsWith.exists_starts {m : Machine} {blueprints : List Blueprint}
    {source : String}
    {program : Program} (h : m.RestsWith blueprints)
    (hcompile : Program.compileAfter m.heap.functions source = .ok program) :
    ∃ ground extent m₀, m.Starts program ground extent m₀ := by
  have hidle := h.idle
  obtain ⟨⟨W, hground, hat⟩, hcalls⟩ := h
  obtain ⟨bps, bp, fs, f, extent, hle, rfl, htable, hconstants, hfits, hscript, hsize⟩ :=
    compileAfter_script hcompile hat.heap.table
  have hbp : (bps ++ [bp])[fs.size]? = some bp := by
    rw [← Array.length_toList, htable.length_eq]
    simp
  -- The new functions stand behind those of the heap, and the main function is the last one.
  have hwhole : TableFits (bps ++ [bp]) (fs.push f).toList := by
    rw [Array.toList_push]
    exact htable.push hfits
  have hloaded : At { W with blueprints := bps ++ [bp] } [] (m.load ⟨fs.push f, ⟨fs.size⟩⟩) :=
    hat.load (hle.trans (List.prefix_append _ _)) hwhole
  have hready : Exec.Ensures _ (Exec.launch ⟨fs.size⟩) _ _ :=
    Exec.launch_ready hloaded hcalls hbp hscript.captures hscript.member
  have hget : (fs.push f).getD fs.size default = f := by simp [Array.getD_eq_getD_getElem?]
  have harity : ((m.load ⟨fs.push f, ⟨fs.size⟩⟩).heap.function ⟨fs.size⟩).arity = 0 := by
    show ((fs.push f).getD fs.size default).arity = 0
    have hparameters := hfits.arity
    rw [hscript.parameters] at hparameters
    rw [hget]
    exact UInt8.toNat_inj.1 hparameters.symm
  obtain ⟨m₀, hlaunch, hbegins⟩ :=
    Idle.exists_begins (m := m.load ⟨fs.push f, ⟨fs.size⟩⟩) { hidle with } harity
  have hrunning : m₀.Running ⟨bps ++ [bp], W.stale⟩ := by
    have hlaunch' := hlaunch
    unfold Machine.launch at hlaunch'
    split at hlaunch'
    · next u m₁ hrun =>
      obtain rfl := Progress.running.inj hlaunch'
      rw [Exec.Ensures, hrun] at hready
      exact hready.runsOn.running
    · cases hlaunch'
  exact ⟨⟨bps ++ [bp], W.stale⟩, extent, m₀, {
    launches := hlaunch
    begins := hbegins
    running := hrunning
    stale := congrArg Ground.stale hground
    script := ⟨bp, hbp, hscript⟩
    size := by
      show ((fs.push f).getD fs.size default).chunk.size = _
      rw [hget, hsize]
    refer := Function.referBelow_push htable hconstants }⟩

/-! ## Two lines -/

namespace Machine

variable {P : Pairing} {m m₀ m' b b' k : Machine} {program : Program} {ground : Ground}
  {extent : Nat} {code : Code}

/-- A script that has been started is abreast of a machine with the same objects and global
variables that stands where the code of the declarations is, too. -/
theorem Starts.abreast (h : m.Starts program ground extent m₀) (htrusted : Trusted m.heap.slots)
    (hmain : P.main = ⟨m.heap.closures.size⟩) (hscript : P.script = program.main)
    (hextent : code.extent = extent) (haligned : P.Aligned m₀.heap m'.heap code)
    (hheap : m₀.heap.Renamed P.toRenaming m'.heap)
    (hglobals : m₀.globals.Alike (Value.Renamed P.toRenaming) m'.globals)
    (hsink : m₀.sink = m'.sink)
    (hvalues' : m'.values.length = 1) (hcalls' : m'.calls = [⟨P.main', P.shift, 0, .finish⟩])
    (hopen' : m'.openCells = [])
    (hmain' : m'.heap.closures[P.main'.index]? = some ⟨P.script', #[]⟩) :
    m₀.Abreast P ground code m' := by
  obtain ⟨v', hv'⟩ := List.length_eq_one_iff.1 hvalues'
  have hbegins := h.begins
  -- Both machines have one call and one value; these are paired as the lowest ones.
  have hcalls : OnBottom (Frame.Renamed P.toRenaming) (Frame.Lowest P) m₀.calls m'.calls := by
    rw [hbegins.calls, hcalls']
    exact .bottom ⟨hmain.symm, rfl, (Nat.zero_add _).symm, rfl, rfl, rfl, rfl⟩
  have hvalues : OnBottom (Value.Renamed P.toRenaming) (fun _ _ => True) m₀.values m'.values := by
    rw [hbegins.values, hv']
    exact .bottom trivial
  exact {
    inStep := {
      heap := hheap
      globals := hglobals
      sink := hsink
      now := rfl
      values := hvalues
      room := by
        rw [hbegins.values]
        exact Nat.zero_lt_one
      calls := hcalls
      openCells := hbegins.openCells.trans hopen'.symm
      known := by
        rw [hbegins.openCells]
        exact fun _ hid => absurd hid List.not_mem_nil
      main := by
        rw [hbegins.heap, hmain, hscript]
        exact Array.getElem?_push_size
      main' := hmain' }
    running := h.running
    trusted := h.stale ▸ htrusted
    script := by
      rw [hscript, hextent]
      exact h.script
    aligned := haligned
    within := ⟨[], _, hbegins.calls, Nat.zero_le _⟩ }

/-- The end of a script that stands behind other code. -/
theorem exists_runsOut_of_code {f : Frame} (front : List UInt8) (hcalls : m.calls = [f])
    (hresume : f.resume = .finish) (hopen : m.openCells = []) (hvalues : m.values.length = 1)
    (hcode : (Exec.chunkOf m f).code.toList = front ++ scriptEnd) (hfront : front.length = f.ip)
    (now now' : Float) : ∃ m', m.RunsOut now now' m' := by
  refine exists_runsOut hcalls hresume hopen ?_ ?_ ?_ now now'
  · rw [size_stack, hvalues]
    decide
  · rw [← Array.getElem?_toList, hcode, ← hfront, List.getElem?_append_right (Nat.le_refl _),
      Nat.sub_self]
    rfl
  · rw [← Array.getElem?_toList, hcode, ← hfront,
      List.getElem?_append_right (Nat.le_add_right _ 1), Nat.add_sub_cancel_left]
    rfl

/-- Where the declarations of a script end its run ends, on the first one of two machines. -/
theorem Abreast.exists_runsOut (h : b.Abreast P ground code b') (hend : b.AtEnd code.extent)
    (hcode : (b.heap.function P.script).chunk.code.toList = code.bytes ++ scriptEnd)
    (now now' : Float) : ∃ k, b.RunsOut now now' k := by
  obtain ⟨hvalues, hopen⟩ := h.settled hend
  obtain ⟨f, hcalls, hip⟩ := hend
  obtain ⟨f', -, hlowest⟩ := h.lowest hcalls
  refine exists_runsOut_of_code code.bytes hcalls hlowest.resume hopen hvalues ?_ hip.symm now now'
  rw [Exec.chunkOf, (h.inStep.functionOf_lowest hlowest).1, hcode]

/-- So it does on the second one, if the end of the script is there, too. -/
theorem Abreast.exists_runsOut' (h : b.Abreast P ground code b') (hend : b.AtEnd code.extent)
    (front : List UInt8) (hfront : front.length = code.extent + P.shift)
    (hcode : (b'.heap.function P.script').chunk.code.toList = front ++ scriptEnd)
    (now now' : Float) : ∃ k, b'.RunsOut now now' k := by
  obtain ⟨hvalues, hopen⟩ := h.settled hend
  obtain ⟨f, hcalls, hip⟩ := hend
  obtain ⟨f', hcalls', hlowest⟩ := h.lowest hcalls
  have hfunction : b'.heap.functionOf f'.closure = b'.heap.function P.script' :=
    (h.inStep.functionOf_lowest hlowest).2
  refine exists_runsOut_of_code front hcalls' hlowest.resume' (h.inStep.openCells ▸ hopen)
    (h.inStep.values.length_eq ▸ hvalues) ?_ ?_ now now'
  · rw [Exec.chunkOf, hfunction, hcode]
  · rw [hfront, hlowest.ip, hip]

/-- The code of a script tells the extent of its declarations. -/
theorem extent_eq_of_size {chunk : Chunk} (hsize : chunk.size = extent + scriptEnd.length)
    (hcode : chunk.code.toList = code.bytes ++ scriptEnd) : code.extent = extent := by
  rw [Chunk.size, ← Array.length_toList, hcode, List.length_append] at hsize
  exact Nat.add_right_cancel hsize

section

variable {fs gs : Array Function} {f g h : Function} {a a' d d' : Code}
  {one two whole : Array Function} {W : World}

/-- **The first line is abreast of both lines**, once each has been started. -/
theorem Starts.opening {ground' : Ground} {extent' : Nat} {m₀' : Machine}
    (hlines : Program.Continues fs gs f g h a a' d d' one two whole)
    (hstarts : m.Starts ⟨one, ⟨fs.size⟩⟩ ground extent m₀)
    (hstarts' : m.Starts ⟨whole, ⟨fs.size + gs.size⟩⟩ ground' extent' m₀') (hat : At W [] m)
    (htrusted : Trusted m.heap.slots) (hpos : 0 < fs.size) (hle : m.heap.functions.size ≤ fs.size) :
    m₀.Abreast (Pairing.opening fs.size gs.size m.heap.closures.size) ground a m₀' := by
  have hbegins := hstarts.begins
  have hbegins' := hstarts'.begins
  -- Each run has one new closure, of its script; all others are shared.
  have hextends : Renaming.identity.Extends W
      (Pairing.opening fs.size gs.size m.heap.closures.size).toRenaming := by
    rintro c _ ⟨bp, hbp⟩ rfl
    refine ⟨rfl, Nat.ne_of_lt ?_⟩
    rw [← Array.length_toList, hat.heap.closures.length_eq]
    exact (List.getElem?_eq_some_iff.1 hbp).1
  have hheap := (hat.heap.renamed (Heap.trusted_iff.1 htrusted)).begins hat.heap hextends
    whole (m.heap.closures.push ⟨⟨fs.size + gs.size⟩, #[]⟩) ⟨fs.size⟩
    (hlines.opening_renamed hstarts.refer)
    (by
      rintro c _ ⟨-, hne⟩ rfl
      exact hne rfl)
    (by
      rintro c _ ⟨rfl, hne⟩
      have hold := m.heap.closure_newClosure_eq ⟨⟨fs.size + gs.size⟩, #[]⟩ c
      rw [if_neg (show c ≠ ⟨m.heap.closures.size⟩ from fun heq =>
        hne (congrArg ClosureId.index heq))] at hold
      refine ⟨⟨?_, hat.heap.function_lt hle hpos c⟩, ?_⟩
      · exact congrArg Closure.function hold.symm
      · exact congrArg Closure.captures hold.symm)
    (fun k => ⟨by rw [Array.size_push], by dsimp only; omega⟩)
  refine hstarts.abreast htrusted rfl rfl (extent_eq_of_size hstarts.size ?_)
    (hlines.opening_aligned hstarts.refer hbegins.functions_eq hbegins'.functions_eq)
    ?_ ?_ (hbegins.sink.trans hbegins'.sink.symm) (congrArg List.length hbegins'.values)
    hbegins'.calls hbegins'.openCells ?_
  · exact hlines.one_script.code ▸ hlines.code
  · rw [hbegins.heap, hbegins'.heap]
    exact hheap
  · rw [hbegins.globals, hbegins'.globals]
    exact hat.globals.alike fun v hv => hv.renamed.rebase hextends hv
  · rw [hbegins'.heap]
    exact Array.getElem?_push_size

/-- **The second line is abreast of the rest of both**, once it has been started where the first
line has ended. -/
theorem Starts.closing {ground' : Ground} {closures : Nat} {now now' : Float}
    (hlines : Program.Continues fs gs f g h a a' d d' one two whole)
    (hone : Function.ReferBelow fs.size one) (hpos : 0 < fs.size)
    (h : b.Abreast (Pairing.opening fs.size gs.size closures) ground' a b')
    (hend : b.AtEnd a.extent) (hwhole : b'.heap.functions = whole) (hends : b.RunsOut now now' k)
    (hstarts : k.Starts ⟨two, ⟨fs.size + 1 + gs.size⟩⟩ ground extent m₀) (hat : At W [] k)
    (htrusted : Trusted k.heap.slots) :
    m₀.Abreast (Pairing.closing fs.size gs.size closures k.heap.closures.size a.extent) ground d
      b' := by
  subst hwhole
  have hbegins := hstarts.begins
  have hrenamed := h.inStep.heap
  rw [← hends.heap] at hrenamed
  have hsize : k.heap.closures.size = b'.heap.closures.size :=
    congrArg ClosureId.index (hrenamed.next 0).1
  -- What was shared while the first line ran still is, but the first script is not used again.
  have hextends : (Pairing.opening fs.size gs.size closures).Extends W
      (Pairing.closing fs.size gs.size closures k.heap.closures.size a.extent).toRenaming := by
    rintro c _ ⟨bp, hbp⟩ ⟨rfl, hne⟩
    refine .inl ⟨rfl, ?_, hne⟩
    rw [← Array.length_toList, hat.heap.closures.length_eq]
    exact (List.getElem?_eq_some_iff.1 hbp).1
  have hnew : ∀ {heap : Heap} {c : ClosureId}, heap.closures.size ≤ c.index →
      heap.closure c = default := by
    intro heap c hc
    rw [Heap.closure, Array.getD_eq_getD_getElem?, Array.getElem?_eq_none hc]
    rfl
  have hmore := hrenamed.begins hat.heap hextends b'.heap.functions b'.heap.closures
    ⟨fs.size + 1 + gs.size⟩ (hlines.closing_renamed hone hstarts.refer)
    (by
      rintro c _ (⟨-, hlt, -⟩ | ⟨i, rfl, -⟩) heq
      · exact absurd (congrArg ClosureId.index heq) (Nat.ne_of_lt hlt)
      · have hindex := congrArg ClosureId.index heq
        dsimp only at hindex
        omega)
    (by
      rintro c _ (⟨rfl, hlt, hne⟩ | ⟨i, rfl, rfl⟩)
      · have hclosure : (k.heap.closure c).Renamed _ (b'.heap.closure c) :=
          hrenamed.closures ⟨rfl, hne⟩
        exact ⟨.inl hclosure.function, hclosure.captures⟩
      · show Closure.Renamed _ _ (b'.heap.closure _)
        rw [hnew (by dsimp only; omega), hnew (by dsimp only; omega)]
        exact ⟨.inl ⟨rfl, hpos⟩, rfl⟩)
    (fun i => .inr ⟨i, rfl, by rw [hsize]⟩)
  -- The run of both is where its script has done what the first line does.
  obtain ⟨hvalues, hopen⟩ := h.settled hend
  obtain ⟨x, hcalls, hip⟩ := hend
  obtain ⟨⟨closure', ip', slots', resume'⟩, hcalls', hlowest⟩ := h.lowest hcalls
  obtain rfl : closure' = ⟨closures⟩ := hlowest.closure'
  obtain rfl : ip' = x.ip := hlowest.ip
  obtain rfl : slots' = 0 := hlowest.slots'
  obtain rfl : resume' = .finish := hlowest.resume'
  refine hstarts.abreast htrusted rfl rfl (extent_eq_of_size hstarts.size ?_)
    (hlines.closing_aligned hstarts.refer hbegins.functions_eq rfl) ?_ ?_
    (hbegins.sink.trans (hends.sink.trans h.inStep.sink)) (h.inStep.values.length_eq ▸ hvalues)
    (by rw [hcalls', hip]; rfl)
    (h.inStep.openCells ▸ hopen) h.inStep.main'
  · exact hlines.two_script.code ▸ hlines.code'
  · rw [hbegins.heap]
    exact hmore
  · rw [hbegins.globals]
    have hbetween := h.inStep.globals
    rw [← hends.globals] at hbetween
    exact hbetween.imp_of_all hat.globals fun _ _ hv hrenamed => hrenamed.rebase hextends hv

/-- Two runs end at the same times, with the same objects, global variables and output. -/
def EndAlike (m m' : Machine) : Prop :=
  ∀ {times : List Float} {value : Value} {x : Machine},
    (Progress.running m).timed times = some (.finished value x) ∨
      (Progress.running m').timed times = some (.finished value x) →
    ∃ k k' ρ, (Progress.running m).timed times = some (.finished .nil k) ∧
      (Progress.running m').timed times = some (.finished .nil k') ∧ k.Renamed ρ k'

/-- Where the second line ends both lines end. -/
theorem Abreast.endAlike {closures later : Nat}
    (hlines : Program.Continues fs gs f g h a a' d d' one two whole)
    (h : b.Abreast (Pairing.closing fs.size gs.size closures later a.extent) ground d b')
    (htwo : b.heap.functions = two) (hwhole : b'.heap.functions = whole) : b.EndAlike b' := by
  intro times value x hrun
  obtain ⟨front, back, c, c', rfl, hc, hc', habreast, hend⟩ := h.exists_end hrun
  have hfunctions : c.heap.functions = two :=
    (Progress.Visits.functions_eq ((Progress.Visits.start rfl).timed hc)).trans htwo
  have hfunctions' : c'.heap.functions = whole :=
    (Progress.Visits.functions_eq ((Progress.Visits.start rfl).timed hc')).trans hwhole
  have hends := habreast.exists_runsOut hend (by
    show (c.heap.functions.getD (fs.size + 1 + gs.size) default).chunk.code.toList = _
    rw [hfunctions]
    exact hlines.two_script.code ▸ hlines.code')
  have hends' := habreast.exists_runsOut' hend (a'.bytes ++ d'.bytes)
    (by
      rw [List.length_append, Nat.add_comm]
      exact congrArg₂ (· + ·)
        (Code.extent_eq_of_forall₂ hlines.pairs' fun _ _ hi => hi.operands.length_eq).symm
        (Code.extent_eq_of_forall₂ hlines.pairs fun _ _ hi => hi.operands.length_eq).symm)
    (by
      show (c'.heap.functions.getD (fs.size + gs.size) default).chunk.code.toList = _
      rw [hfunctions']
      exact hlines.whole_script.code ▸ hlines.codes)
  rw [Progress.timed_append_of_eq hc, Progress.timed_append_of_eq hc'] at hrun
  -- Whichever of the two ends, it does so in two steps.
  obtain ⟨now, now', rfl⟩ : ∃ now now', back = [now, now'] := by
    rcases hrun with hrun | hrun
    · obtain ⟨now, now', rfl, -⟩ := exists_two_of_runsOut hends hrun
      exact ⟨now, now', rfl⟩
    · obtain ⟨now, now', rfl, -⟩ := exists_two_of_runsOut hends' hrun
      exact ⟨now, now', rfl⟩
  obtain ⟨k, hk⟩ := hends now now'
  obtain ⟨k', hk'⟩ := hends' now now'
  refine ⟨k, k', (Pairing.closing fs.size gs.size closures later a.extent).toRenaming,
    (Progress.timed_append_of_eq hc _).trans hk.returns,
    (Progress.timed_append_of_eq hc' _).trans hk'.returns, ?_, ?_, ?_, hk.now.trans hk'.now.symm⟩
  · rw [hk.heap, hk'.heap]
    exact habreast.inStep.heap
  · rw [hk.globals, hk'.globals]
    exact habreast.inStep.globals
  · rw [hk.sink, hk'.sink]
    exact habreast.inStep.sink

end

/-- Where a run of one line is about to end: it does so in two steps, whatever the time is, and what
is run next, another line, goes on as the run of both lines does from here. -/
structure HandsOver (next : String) (b b' : Machine) : Prop where
  /-- The run of the line ends. -/
  runsOut : ∀ now now', ∃ k, b.RunsOut now now' k
  /-- The next line starts and goes on like the run of both. -/
  continues : ∀ {now now' k}, b.RunsOut now now' k →
    ∃ program m, Program.compileAfter k.heap.functions next = .ok program ∧
      (k.load program).launch program.main = .running m ∧ m.EndAlike b'

/-- **Two lines run one after the other or at once.**  If the first line is run to its end, or both
lines are, the run of the first one comes to where it hands over to the second one, and at the same
times so does the run of both. -/
theorem exists_lines {p q : String} (hrests : m.Rests) (htrusted : Trusted m.heap.slots)
    (hpos : 0 < m.heap.functions.size) (hp : ∃ P, Program.compile p = .ok P)
    (hq : ∃ Q, Program.compile q = .ok Q) (hpq : ∃ S, Program.compile (p ++ "\n" ++ q) = .ok S) :
    ∃ P S m₀ m₀', Program.compileAfter m.heap.functions p = .ok P ∧
      (m.load P).launch P.main = .running m₀ ∧
      Program.compileAfter m.heap.functions (p ++ "\n" ++ q) = .ok S ∧
      (m.load S).launch S.main = .running m₀' ∧
      ∀ {times : List Float} {value : Value} {x : Machine},
        (Progress.running m₀).timed times = some (.finished value x) ∨
          (Progress.running m₀').timed times = some (.finished value x) →
        ∃ front back b b', times = front ++ back ∧
          (Progress.running m₀).timed front = some (.running b) ∧
          (Progress.running m₀').timed front = some (.running b') ∧ HandsOver q b b' := by
  obtain ⟨P, hP⟩ := hp
  obtain ⟨Q, hQ⟩ := hq
  obtain ⟨S, hS⟩ := hpq
  obtain ⟨fs, gs, f, g, h, a, a', d, d', one, two, whole, hone, htwo, hwhole, hle, hlines⟩ :=
    Program.compileAfter_newline m.heap.functions hP hQ hS
  obtain ⟨blueprints, hrests⟩ := hrests
  obtain ⟨ground, extent, m₀, hstarts⟩ := hrests.exists_starts hone
  obtain ⟨ground', extent', m₀', hstarts'⟩ := hrests.exists_starts hwhole
  have hpos' : 0 < fs.size := Nat.lt_of_lt_of_le hpos hle
  obtain ⟨W, -, hat⟩ := hrests.typed
  have habreast := hstarts.opening hlines hstarts' hat htrusted hpos' hle
  refine ⟨_, _, m₀, m₀', hone, hstarts.launches, hwhole, hstarts'.launches, fun hrun => ?_⟩
  obtain ⟨front, back, b, b', rfl, hb, hb', hhalf, hend⟩ := habreast.exists_end hrun
  -- A run leaves the table of functions as it was when it started.
  have hfunctions : b.heap.functions = one := (Progress.Visits.functions_eq
    ((Progress.Visits.start rfl).timed hb)).trans hstarts.begins.functions_eq
  have hfunctions' : b'.heap.functions = whole := (Progress.Visits.functions_eq
    ((Progress.Visits.start rfl).timed hb')).trans hstarts'.begins.functions_eq
  refine ⟨front, back, b, b', rfl, hb, hb', ?_, fun {now now' k} hk => ?_⟩
  · refine hhalf.exists_runsOut hend ?_
    show (b.heap.functions.getD fs.size default).chunk.code.toList = _
    rw [hfunctions]
    exact hlines.one_script.code ▸ hlines.code
  · -- Behind the first line the machine is at rest again.
    have hquiet : k.Quiet ground := Progress.Sound.timed (p := .running b) hhalf.running hk.returns
    have htwo' : Program.compileAfter k.heap.functions q = .ok ⟨two, ⟨fs.size + 1 + gs.size⟩⟩ := by
      rw [hk.heap, hfunctions]
      exact htwo
    have htrusted' : Trusted k.heap.slots := hquiet.trusted (hstarts.stale ▸ htrusted)
    obtain ⟨ground₁, extent₁, m₁, hstarts₁⟩ := hquiet.rests.exists_starts htwo'
    obtain ⟨W', -, hat'⟩ := hquiet.typed
    have hclosing := hstarts₁.closing hlines hstarts.refer hpos' hhalf hend hfunctions' hk hat'
      htrusted'
    exact ⟨_, m₁, htwo', hstarts₁.launches,
      hclosing.endAlike hlines hstarts₁.begins.functions_eq hfunctions'⟩

end Machine

/-! ## Sessions -/

namespace Session

variable {natives : List Native} {s s' : Session} {source p q : String}

/-- A session interprets a source, by one step at each of some times, and becomes another one when a
value is returned. -/
def Interprets (s : Session) (times : List Float) (source : String) (s' : Session) : Prop :=
  ∃ value, s.interpret (.timed times) source = some (.ok value, s')

/-- Two sessions with the same output, objects and global variables, up to the numbers of functions
and closures and to line tables. -/
def SameAs (s s' : Session) : Prop :=
  (∃ ρ, s.machine.Renamed ρ s'.machine) ∧ s.preludeLoaded = s'.preludeLoaded

/-- A source is run behind the prelude. -/
theorem interpret_of_loadPrelude {runner : Runner Option}
    (hload : s.loadPrelude runner = some (.ok (), s')) :
    s.interpret runner source = s'.run runner source := by
  unfold interpret
  rw [hload]
  rfl

/-- A prelude that has been loaded is not run again. -/
theorem loadPrelude_of_loaded (runner : Runner Option) (hloaded : s.preludeLoaded = true) :
    s.loadPrelude runner = some (.ok (), s) := by
  unfold loadPrelude
  rw [if_pos hloaded]
  rfl

/-- A prelude that has not been loaded is run first. -/
theorem loadPrelude_of_run {runner : Runner Option} {value : Value}
    (hunloaded : s.preludeLoaded = false)
    (hrun : run runner { s with preludeLoaded := true } prelude = some (.ok value, s')) :
    s.loadPrelude runner = some (.ok (), s') := by
  unfold loadPrelude
  rw [if_neg (by rw [hunloaded]; decide), hrun]
  rfl

/-- The outcome of a source is that of its run. -/
theorem run_of_launch {runner : Runner Option} {program : Program} {outcome : Except Fault Value}
    {m : Machine} (hcompile : Program.compileAfter s.machine.heap.functions source = .ok program)
    (hrun : runner ((s.machine.load program).launch program.main) = some (outcome, m)) :
    s.run runner source = some (outcome.mapError .fault, { s with machine := m }) := by
  rw [run_of_compileAfter s hcompile, runFunction, hrun]
  rfl

/-- The prelude is loaded once its run has returned a value. -/
theorem loadPrelude_of_launch {runner : Runner Option} {program : Program} {value : Value}
    {m : Machine} (hunloaded : s.preludeLoaded = false)
    (hcompile : Program.compileAfter s.machine.heap.functions prelude = .ok program)
    (hrun : runner ((s.machine.load program).launch program.main) = some (.ok value, m)) :
    s.loadPrelude runner = some (.ok (), ⟨m, true⟩) :=
  loadPrelude_of_run hunloaded
    (run_of_launch (s := { s with preludeLoaded := true }) hcompile hrun)

/-- What a run that has started comes to is what the source does, behind the prelude. -/
theorem interprets_iff {program : Program} {m₀ : Machine} {times : List Float}
    (hloaded : s.preludeLoaded = true)
    (hcompile : Program.compileAfter s.machine.heap.functions source = .ok program)
    (hlaunch : (s.machine.load program).launch program.main = .running m₀) :
    s.Interprets times source s' ↔ ∃ value m,
      (Machine.Progress.running m₀).timed times = some (.finished value m) ∧
        s' = { s with machine := m } := by
  have hinterpret : s.interpret (.timed times) source =
      (((Machine.Progress.running m₀).timed times).bind Machine.Progress.outcome?).bind fun r =>
        some (r.1.mapError .fault, { s with machine := r.2 }) := by
    rw [interpret_of_loadPrelude (loadPrelude_of_loaded _ hloaded), run_of_compileAfter s hcompile,
      runFunction, Runner.timed, hlaunch]
    rfl
  rw [Interprets, hinterpret]
  constructor
  · rintro ⟨value, h⟩
    cases hend : (Machine.Progress.running m₀).timed times with
    | none =>
      rw [hend] at h
      cases h
    | some progress =>
      rw [hend] at h
      cases progress with
      | running _ | failed _ _ => cases h
      | finished value' m =>
        cases h
        exact ⟨value, m, rfl, rfl⟩
  · rintro ⟨value, m, hend, rfl⟩
    refine ⟨value, ?_⟩
    rw [hend]
    rfl

/-- There is a function behind every run that has returned a value. -/
theorem functions_pos_of_run {pauses : List Pause} {value : Value} (hclean : s.Clean)
    (h : s.run (.paced pauses) source = some (.ok value, s')) :
    0 < s'.machine.heap.functions.size := by
  rcases run_cases h with ⟨-, errors, herror⟩ | ⟨last, result, ⟨program, hcompile, hends⟩, hresult⟩
  · cases herror
  · cases result with
    | error fault => cases hresult
    | ok value' =>
      obtain ⟨blueprints, hrests⟩ := hclean.rests
      obtain ⟨ground, extent, m₀, hstarts⟩ := hrests.exists_starts hcompile
      rw [hstarts.launches] at hends
      rw [hends.functions_eq, hstarts.begins.functions_eq]
      obtain ⟨W, -, hat⟩ := hrests.typed
      obtain ⟨bps, bp, fs, f, extent, -, rfl, -⟩ := compileAfter_script hcompile hat.heap.table
      show 0 < (fs.push f).size
      rw [Array.size_push]
      exact Nat.zero_lt_succ _

/-- There are the functions of the prelude once that is loaded. -/
theorem Reached.functions_pos (h : Reached natives s) (hloaded : s.preludeLoaded = true) :
    0 < s.machine.heap.functions.size := by
  induction h with
  | new sink now => cases hloaded
  | pause _ pause ih => exact ih hloaded
  | run h pauses hrun _ => exact functions_pos_of_run h.clean hrun
  | @interpret s₀ s₁ source value h pauses hinterpret _ =>
    obtain ⟨⟨result, s''⟩, hload, hrest⟩ := Option.bind_eq_some_iff.1 hinterpret
    cases result with
    | ok _ => exact functions_pos_of_run ((loadPrelude_sound h.clean hload).1 rfl) hrest
    | error e => cases hrest

/-- **A program may be given line by line.**  Behind the prelude, and if no run has failed, two
lines that compile return values one after the other if and only if they do so at once, and then
they leave the same.  The clock shows the same times; the first line by itself takes two more steps,
which push `nil` and return it. -/
theorem Reached.interprets_newline (h : Reached natives s) (hloaded : s.preludeLoaded = true)
    (hp : ∃ P, Program.compile p = .ok P) (hq : ∃ Q, Program.compile q = .ok Q)
    (hpq : ∃ S, Program.compile (p ++ "\n" ++ q) = .ok S) :
    (∀ times back s₁ s₂, s.Interprets times p s₁ → s₁.Interprets back q s₂ →
      ∃ front now now' s', times = front ++ [now, now'] ∧
        s.Interprets (front ++ back) (p ++ "\n" ++ q) s' ∧ s₂.SameAs s') ∧
    ∀ times s', s.Interprets times (p ++ "\n" ++ q) s' →
      ∃ front back, times = front ++ back ∧ ∀ now now', ∃ s₁ s₂,
        s.Interprets (front ++ [now, now']) p s₁ ∧ s₁.Interprets back q s₂ ∧ s₂.SameAs s' := by
  obtain ⟨P, S, m₀, m₀', hP, hlaunch, hS, hlaunch', hlines⟩ := Machine.exists_lines h.clean.rests
    h.clean.trusted (h.functions_pos hloaded) hp hq hpq
  constructor
  · -- The run of both goes through the same times, but for the two in which the first line ends.
    intro times back s₁ s₂ h₁ h₂
    obtain ⟨value, m, hend, rfl⟩ := (interprets_iff hloaded hP hlaunch).1 h₁
    obtain ⟨front, rest, b, b', rfl, hb, hb', hover⟩ := hlines (.inl hend)
    rw [Machine.Progress.timed_append_of_eq hb] at hend
    obtain ⟨now, now', rfl, hk⟩ := Machine.exists_two_of_runsOut hover.runsOut hend
    obtain ⟨Q, m₁, hQ, hlaunch₁, halike⟩ := hover.continues hk
    obtain ⟨value₂, m₂, hend₂, rfl⟩ :=
      (interprets_iff (s := { s with machine := m }) hloaded hQ hlaunch₁).1 h₂
    obtain ⟨k₂, k₂', ρ, hk₂, hk₂', hrenamed⟩ := halike (.inl hend₂)
    obtain ⟨-, rfl⟩ := Machine.Progress.finished.inj (Option.some.inj (hend₂.symm.trans hk₂))
    exact ⟨front, now, now', { s with machine := k₂' }, rfl,
      (interprets_iff hloaded hS hlaunch').2 ⟨.nil, k₂',
        (Machine.Progress.timed_append_of_eq hb' back).trans hk₂', rfl⟩, ⟨ρ, hrenamed⟩, rfl⟩
  · -- The first line ends at any two times once the run of both has done what it does.
    intro times s' h'
    obtain ⟨value, m, hend, rfl⟩ := (interprets_iff hloaded hS hlaunch').1 h'
    obtain ⟨front, back, b, b', rfl, hb, hb', hover⟩ := hlines (.inr hend)
    rw [Machine.Progress.timed_append_of_eq hb'] at hend
    refine ⟨front, back, rfl, fun now now' => ?_⟩
    obtain ⟨k, hk⟩ := hover.runsOut now now'
    obtain ⟨Q, m₁, hQ, hlaunch₁, halike⟩ := hover.continues hk
    obtain ⟨k₂, k₂', ρ, hk₂, hk₂', hrenamed⟩ := halike (.inr hend)
    obtain ⟨-, rfl⟩ := Machine.Progress.finished.inj (Option.some.inj (hend.symm.trans hk₂'))
    exact ⟨{ s with machine := k }, { s with machine := k₂ },
      (interprets_iff hloaded hP hlaunch).2 ⟨.nil, k,
        (Machine.Progress.timed_append_of_eq hb _).trans hk.returns, rfl⟩,
      (interprets_iff (s := { s with machine := k }) hloaded hQ hlaunch₁).2 ⟨.nil, k₂, hk₂, rfl⟩,
      ⟨ρ, hrenamed⟩, rfl⟩

/-- Whether a session behind the prelude returns values for three sources, one after the other and
with as many steps as are given for the second and the third one, and has written a text then. -/
def writesByLine (runner : Runner Option) (s : Session) (first : String)
    (second third : String × Nat)
    (text : String) : Bool :=
  s.returns runner first fun s => s.preludeLoaded &&
    s.returns (.timed (.replicate second.2 0)) second.1 fun s => s.preludeLoaded &&
      s.returns (.timed (.replicate third.2 0)) third.1 fun s => decide (s.output = text)

/-- Whether a new session does so that has run a program as its prelude. -/
def writesBehind (first : String) (second third : String × Nat) (text : String) :
    Except (List CompileError) Program → Bool
  | .error _ => false
  | .ok program =>
    match Runner.limited 1000
      (((new Native.all .reliable 0).machine.load program).launch program.main) with
    | some (.ok _, m) => writesByLine (.limited 1000) ⟨m, true⟩ first second third text
    | _ => false

/-- A check of three sources in turn gives the sessions between them. -/
theorem exists_of_writesByLine {steps : Nat} {program : Program} {value : Value} {m : Machine}
    {first text : String} {second third : String × Nat} (h : Reached natives s)
    (hunloaded : s.preludeLoaded = false)
    (hprelude : Program.compileAfter s.machine.heap.functions prelude = .ok program)
    (hrun : Runner.limited steps ((s.machine.load program).launch program.main) =
      some (.ok value, m))
    (hlines : writesByLine (.limited steps) ⟨m, true⟩ first second third text = true) :
    ∃ s₀ s₁ s₂, Reached natives s₀ ∧ s₀.preludeLoaded = true ∧
      s₀.Interprets (.replicate second.2 0) second.1 s₁ ∧
      s₁.Interprets (.replicate third.2 0) third.1 s₂ ∧ s₂.output = text := by
  obtain ⟨value₀, s₀, hfirst, hlines⟩ := exists_of_returns hlines
  obtain ⟨hloaded, hlines⟩ := Bool.and_eq_true_iff.1 hlines
  obtain ⟨value₁, s₁, hsecond, hlines⟩ := exists_of_returns hlines
  obtain ⟨hloaded₁, hlines⟩ := Bool.and_eq_true_iff.1 hlines
  obtain ⟨value₂, s₂, hthird, houtput⟩ := exists_of_returns hlines
  have hload : s.loadPrelude (.limited steps) = some (.ok (), ⟨m, true⟩) :=
    loadPrelude_of_launch hunloaded hprelude hrun
  have hreached : Reached natives s₀ := .interpret h [⟨steps, id, 0⟩] <| by
    rw [Runner.paced_singleton]
    exact (interpret_of_loadPrelude hload).trans hfirst
  exact ⟨s₀, s₁, s₂, hreached, hloaded,
    ⟨value₁, (interpret_of_loadPrelude (loadPrelude_of_loaded _ hloaded)).trans hsecond⟩,
    ⟨value₂, (interpret_of_loadPrelude (loadPrelude_of_loaded _ hloaded₁)).trans hthird⟩,
    of_decide_eq_true houtput⟩

/-- A check behind a prelude of a new session gives the sessions between the sources. -/
theorem exists_of_writesBehind {first text : String} {second third : String × Nat}
    (h : writesBehind first second third text (Program.compile prelude) = true) :
    ∃ s s₁ s₂, Reached Native.all s ∧ s.preludeLoaded = true ∧
      s.Interprets (.replicate second.2 0) second.1 s₁ ∧
      s₁.Interprets (.replicate third.2 0) third.1 s₂ ∧ s₂.output = text := by
  cases hprelude : Program.compile prelude with
  | error _ =>
    rw [hprelude] at h
    cases h
  | ok program =>
    rw [hprelude, writesBehind] at h
    split at h
    · next hrun => exact exists_of_writesByLine (.new .reliable 0) rfl hprelude hrun h
    · cases h

/-- A function is declared on one line and called on the next. -/
theorem Reached.interprets_newline_function : ∃ s s₁ s₂ s', Reached Native.all s ∧
    s.preludeLoaded = true ∧
    s.Interprets (.replicate 6 0) "var x = 1; func f() \x7b x = x + 1; \x7d" s₁ ∧
    s₁.Interprets (.replicate 14 0) "f(); print x;" s₂ ∧ s₂.output = "2\n" ∧
    s.Interprets (.replicate 18 0)
      ("var x = 1; func f() \x7b x = x + 1; \x7d" ++ "\n" ++ "f(); print x;") s' ∧
        s₂.SameAs s' := by
  have hcompiles : ∀ source, (Program.compile source).isOk = true →
      ∃ P, Program.compile source = .ok P := by
    intro source h
    cases hcompile : Program.compile source with
    | ok P => exact ⟨P, rfl⟩
    | error errors => simp [hcompile, Except.isOk, Except.toBool] at h
  have hchecked : writesBehind "" ("var x = 1; func f() \x7b x = x + 1; \x7d", 6)
      ("f(); print x;", 14) "2\n" (Program.compile prelude) = true := by
    rw [Program.compile, Program.compileAfter, Builder.complete, scan_prelude]
    decide +kernel
  obtain ⟨s, s₁, s₂, hreached, hloaded, h₁, h₂, houtput⟩ := exists_of_writesBehind hchecked
  obtain ⟨front, now, now', s', htimes, h', hsame⟩ := (hreached.interprets_newline hloaded
    (hcompiles _ (by decide +kernel)) (hcompiles _ (by decide +kernel))
    (hcompiles _ (by decide +kernel))).1 _ _ s₁ s₂ h₁ h₂
  -- The first line takes two steps more by itself.
  have hfront : front = .replicate 4 0 :=
    (List.append_inj' (htimes.symm.trans
      (show List.replicate 6 0 = List.replicate 4 0 ++ [0, 0] from
      rfl)) rfl).1
  subst hfront
  exact ⟨s, s₁, s₂, s', hreached, hloaded, h₁, h₂, houtput, h', hsame⟩

end Session

end ScriptVM
