/-
# Backtraces

When a run fails, the report lists the calls in progress, each with a line.  The line is looked up
at the byte in front of the place that a call has come to; by then the call has read its
instruction, and may have waited behind it for others.

To say which instruction that is, a run is followed together with the offsets at which its calls
last read an opcode (`Machine.Progress.Fetched`).  In code that was compiled all bytes of an
instruction are on one line, and no instruction fails behind a jump; so each line is that of the
instruction which the call is doing.

Main statement: `Session.Used.backtrace`.
-/
import Mathlib.Data.List.DropRight
import ScriptVM.Proofs.Machine.Pointer
import ScriptVM.Proofs.Session.Soundness

namespace ScriptVM

/-! ## Instructions that are being done -/

/-- The instructions that call something, and wait for its result. -/
def Opcode.calling : List Opcode :=
  [.call, .invoke, .invokeSuper, .arrayLiteral, .getProperty, .getSuper, .print]

theorem Opcode.mem_calling_of_starts {op : Opcode} (h : 0 < op.starts) : op ∈ calling := by
  cases op <;> first | decide | exact absurd h (by decide)

namespace Machine

open Exec (chunkOf)

variable {m m' : Machine} {f g : Frame} {rest : List Frame} {offset : Nat} {op : Opcode}
  {offsets : List Nat}

/-- A call is doing the instruction at an offset: it has come behind it, and all bytes of the
instruction are on one line. -/
structure Doing (m : Machine) (f : Frame) (offset : Nat) (op : Opcode) : Prop where
  /-- The closure is there. -/
  known : f.closure.index < m.heap.closures.size
  /-- The instruction starts at the offset. -/
  opcode : (chunkOf m f).opcodeAt? offset = some op
  /-- The call has read it. -/
  read : offset < f.ip
  /-- It is on one line. -/
  line : ∃ line, ∀ k, offset + k < f.ip → (chunkOf m f).lineAt? (offset + k) = some line

/-- The line of a report about a call that is doing the instruction at an offset. -/
def frameTextAt (heap : Heap) (f : Frame) (offset : Nat) : String :=
  let function := heap.functionOf f.closure
  let place := if function.kind = .script then "script" else s!"{function.name}()"
  s!"\t[line {(function.chunk.lineAt? offset).getD 0}] in {place}\n"

/-- A report finds the line of the instruction that a call is doing. -/
theorem Doing.frameText (h : m.Doing f offset op) :
    Machine.frameText m.heap f = frameTextAt m.heap f offset := by
  obtain ⟨line, hline⟩ := h.line
  have hread := h.read
  have hfirst : (chunkOf m f).lineAt? offset = some line := hline 0 hread
  have hlast : (chunkOf m f).lineAt? (f.ip - 1) = some line := by
    have hk := hline (f.ip - 1 - offset) (by omega)
    rwa [show offset + (f.ip - 1 - offset) = f.ip - 1 by omega] at hk
  rw [Machine.frameText, lineOf, hlast, frameTextAt, hfirst]

/-- A call that waits is not disturbed. -/
theorem Doing.step (h : m.Doing f offset op) : (Exec.step.after m).Doing f offset op := by
  have hchunk : chunkOf (Exec.step.after m) f = chunkOf m f :=
    congrArg Function.chunk (functionOf_step h.known)
  exact ⟨Nat.lt_of_lt_of_le h.known (size_closures_step m), hchunk ▸ h.opcode, h.read,
    hchunk ▸ h.line⟩

/-- The calls below the innermost one wait for the instructions at some offsets. -/
def Waiting (m : Machine) (calls : List Frame) (offsets : List Nat) : Prop :=
  List.Forall₂ (fun f offset => ∃ op ∈ Opcode.calling, m.Doing f offset op) calls offsets

theorem Waiting.step (h : m.Waiting rest offsets) : (Exec.step.after m).Waiting rest offsets :=
  h.imp fun _ _ ⟨op, hop, hdoing⟩ => ⟨op, hop, hdoing.step⟩

theorem Waiting.doing (h : m.Waiting rest offsets) :
    List.Forall₂ (fun f offset => ∃ op, m.Doing f offset op) rest offsets :=
  h.imp fun _ _ ⟨op, _, hdoing⟩ => ⟨op, hdoing⟩

theorem Waiting.tail (h : m.Waiting rest offsets) : m.Waiting rest.tail offsets.tail := by
  cases h with
  | nil => exact .nil
  | cons _ h => exact h

theorem Waiting.pause (h : m.Waiting rest offsets) (pause : Pause) :
    (pause.apply m).Waiting rest offsets :=
  h.imp fun _ _ ⟨op, hop, hdoing⟩ =>
    ⟨op, hop, hdoing.known, hdoing.opcode, hdoing.read, hdoing.line⟩

end Machine

/-! ## One step -/

namespace RunsAt

open Machine
open Exec (chunkOf)

variable {W : World} {m : Machine} {f : Frame} {rest : List Frame} {bp : Blueprint}
  {X below : Shape} {st : Stage}

/-- The innermost call stands at an instruction whose bytes are on one line. -/
theorem instruction (h : RunsAt W m f rest bp X below st) :
    ∃ op length line, (chunkOf m f).opcodeAt? f.ip = some op ∧
      (chunkOf m f).instructionLength? m.heap f.ip = some length ∧ 0 < length ∧
      ∀ k < length, (chunkOf m f).lineAt? (f.ip + k) = some line := by
  obtain ⟨front, mark, back, hmarks, hip, -⟩ := Marks.exists_cut_of_point? h.point
  have hfits := h.typed.heap.functionOf h.function
  have hat := hfits.hasAt hmarks
  rw [hip]
  exact ⟨_, _, _, hat.opcodeAt?, hfits.instructionLength? h.typed.heap.table hmarks,
    mark.instruction.size_pos, hat.line⟩

end RunsAt

namespace Machine

open Exec (chunkOf)

variable {m m' : Machine} {f g : Frame} {rest : List Frame} {offset : Nat} {op : Opcode}
  {offsets : List Nat} {ground : Ground}

/-- How a step that does not find the code broken moves the calls, where the innermost one stood at
an offset. -/
inductive Moves (m : Machine) (f : Frame) (rest : List Frame) : Prop
  /-- The innermost call goes on, or there is another one for it. -/
  | stays (g : Frame) (hcalls : (Exec.step.after m).calls = g :: rest)
      (hfails : ∀ e m', Exec.step m = .error e m' → ∃ op, (Exec.step.after m).Doing g f.ip op)
  /-- It starts a call and waits for it. -/
  | starts (g f' : Frame) (hcalls : (Exec.step.after m).calls = g :: f' :: rest)
      (hdoing : ∃ op ∈ Opcode.calling, (Exec.step.after m).Doing f' f.ip op)
      (hok : ∃ result m', Exec.step m = .ok result m')
  /-- It is left. -/
  | leaves (hcalls : (Exec.step.after m).calls = rest)

/-- What may start calls has succeeded. -/
theorem exists_ok_of_allowance {k : Nat} {x : Exec (Option Value)} (h : 0 < x.allowance k m) :
    ∃ result m', x m = .ok result m' := by
  unfold Exec.allowance at h
  split at h
  · exact ⟨_, _, ‹_›⟩
  · exact absurd h (Nat.lt_irrefl 0)

/-- **One step** of compiled code moves the calls in one of these ways. -/
theorem Running.moves (h : m.Running ground) (hcalls : m.calls = f :: rest)
    (hbreaks : ¬Exec.step.Breaks m) : m.Moves f rest := by
  obtain ⟨W, f', rest', bp, X, below, st, -, hruns⟩ := h
  obtain ⟨rfl, rfl⟩ := List.cons.inj (hruns.calls.symm.trans hcalls)
  obtain ⟨op, length, line, hop, hlength, hpos, hline⟩ := hruns.instruction
  by_cases hplain : op ∉ [Opcode.ret, .jump, .jumpIfFalse, .loop]
  · -- The call goes on behind the instruction, which may have started one more.
    obtain ⟨length', above, hlength', hle, hafter⟩ := Exec.step_advances hcalls hop hplain hbreaks
    obtain rfl := Option.some.inj (hlength.symm.trans hlength')
    have hdoing : (Exec.step.after m).Doing { f' with ip := f'.ip + length } f'.ip op := by
      refine Doing.step ⟨hruns.closure_lt, hop, Nat.lt_add_of_pos_right hpos, line, fun k hk => ?_⟩
      exact hline k (Nat.lt_of_add_lt_add_left hk)
    match above, hle, hafter with
    | [], _, hafter => exact .stays _ hafter fun _ _ _ => ⟨op, hdoing⟩
    | [g], hle, hafter =>
      obtain ⟨result, m', hok⟩ := exists_ok_of_allowance hle
      have hstarts : 0 < op.starts := by
        rwa [Exec.allowance_of_ok hok] at hle
      exact .starts _ _ hafter ⟨op, Opcode.mem_calling_of_starts hstarts, hdoing⟩ ⟨result, m', hok⟩
    | _ :: _ :: _, hle, _ =>
      simpa using (hle.trans (Exec.allowance_le _ _ _)).trans op.starts_le
  · have hjumps : ∀ {ip : Nat}, Exec.step m = .ok none (m.moveTo ip) → m.Moves f' rest' := by
      intro ip hstep
      refine .stays { f' with ip } ?_ fun e m' hfails => ?_
      · rw [Exec.after_of_ok hstep]
        exact calls_moveTo hcalls ip
      · rw [hstep] at hfails
        cases hfails
    have hmem : op ∈ [Opcode.ret, .jump, .jumpIfFalse, .loop] := not_not.1 hplain
    simp only [List.mem_cons, List.not_mem_nil, or_false] at hmem
    rcases hmem with rfl | rfl | rfl | rfl
    · -- The call is left, unless the text of an instance is asked for next.
      obtain ⟨above, hle, hafter⟩ := Exec.step_leaves hcalls hop hbreaks
      match above, hle, hafter with
      | [], _, hafter => exact .leaves hafter
      | [g], hle, hafter =>
        obtain ⟨result, m', hok⟩ := exists_ok_of_allowance hle
        refine .stays g hafter fun e m'' hfails => ?_
        rw [hok] at hfails
        cases hfails
      | _ :: _ :: _, hle, _ => simpa using hle.trans (Exec.allowance_le _ _ _)
    · obtain ⟨_, -, hstep⟩ := Exec.step_jump hcalls hop hbreaks
      exact hjumps hstep
    · obtain ⟨_, _, -, -, hstep⟩ := Exec.step_jumpIfFalse hcalls hop hbreaks
      exact hjumps hstep
    · obtain ⟨_, -, -, hstep⟩ := Exec.step_loop hcalls hop hbreaks
      exact hjumps hstep

end Machine

/-! ## Runs -/

/-- The last items of a list. -/
theorem rtake_eq {α : Type} {l : List α} (X : List α) {Y : List α} {n : Nat} (h : l = X ++ Y)
    (hn : n = Y.length) : l.rtake n = Y := by
  rw [h, hn, List.rtake, List.length_append, Nat.add_sub_cancel, List.drop_left]

namespace Machine.Progress

variable {start : Machine.Progress} {m m' : Machine} {offsets : List Nat} {ground : Ground}

/-- A run comes to a machine where the calls below the innermost one have last read an opcode at
some offsets, innermost first.  In each step the innermost call reads one where it stands, and each
call that is still there after the step keeps its offset. -/
inductive Fetched (start : Machine.Progress) : Machine → List Nat → Prop
  | start {m : Machine} (h : start = .running m) : Fetched start m []
  | step {m m' : Machine} {f : Frame} {rest : List Frame} {offsets : List Nat}
      (h : Fetched start m offsets) (hcalls : m.calls = f :: rest)
      (hstep : Exec.step m = .ok none m') :
      Fetched start m' ((f.ip :: offsets).rtake (m'.calls.length - 1))
  | pause {m : Machine} {offsets : List Nat} (h : Fetched start m offsets) (pause : Pause) :
      Fetched start (pause.apply m) offsets

/-- A run fails because of the program, where the calls in progress have last read an opcode at some
offsets. -/
def Fails (start : Machine.Progress) (e : RuntimeError) (last : Machine)
    (offsets : List Nat) : Prop :=
  ∃ before f rest below, start.Fetched before below ∧ before.calls = f :: rest ∧
    Exec.step before = .error (.runtime e) last ∧ offsets = (f.ip :: below).rtake last.calls.length

/-- A run starts with one call. -/
def StartsWithCall (start : Machine.Progress) : Prop :=
  ∀ m, start = .running m → m.calls.length = 1

/-- A machine where a run has read opcodes is one that it visits. -/
theorem Fetched.visits (h : start.Fetched m offsets) : start.Visits m := by
  induction h with
  | start h => exact .start h
  | step _ _ hstep ih => exact ih.step hstep
  | pause _ pause ih => exact ih.pause pause

/-- Wherever a sound run comes, its calls have read opcodes. -/
theorem Visits.exists_fetched (h : start.Visits m) (hsound : start.Sound ground) :
    ∃ offsets, start.Fetched m offsets := by
  induction h with
  | start h => exact ⟨[], .start h⟩
  | step hvisits hstep ih =>
    obtain ⟨offsets, hfetched⟩ := ih
    obtain ⟨W, f, rest, bp, X, below, st, -, hruns⟩ := hsound.visits hvisits
    exact ⟨_, hfetched.step hruns.calls hstep⟩
  | pause _ pause ih =>
    obtain ⟨offsets, hfetched⟩ := ih
    exact ⟨offsets, hfetched.pause pause⟩

/-- **Along a run** each call below the innermost one waits behind an instruction that calls
something: the one that it has last read. -/
theorem Fetched.waiting (h : start.Fetched m offsets) (hsound : start.Sound ground)
    (hstart : start.StartsWithCall) : ∃ f rest, m.calls = f :: rest ∧ m.Waiting rest offsets := by
  induction h with
  | @start m h =>
    obtain ⟨f, hf⟩ := List.length_eq_one_iff.1 (hstart m h)
    exact ⟨f, [], hf, .nil⟩
  | @step m m' f rest offsets hfetched hcalls hstep ih =>
    obtain ⟨f', rest', hcalls', hwaiting⟩ := ih
    obtain ⟨rfl, rfl⟩ := List.cons.inj (hcalls.symm.trans hcalls')
    have hlength := hwaiting.length_eq
    have hwaiting := hwaiting.step
    have hmoves := (hsound.visits hfetched.visits).moves hcalls (Exec.not_breaks_of_ok hstep)
    rw [← Exec.after_of_ok hstep]
    cases hmoves with
    | stays g hafter _ =>
      refine ⟨g, rest, hafter, ?_⟩
      have hoffsets : (f.ip :: offsets).rtake rest.length = offsets := rtake_eq [f.ip] rfl hlength
      rwa [hafter, List.length_cons, Nat.add_sub_cancel, hoffsets]
    | starts g f' hafter hdoing _ =>
      refine ⟨g, f' :: rest, hafter, ?_⟩
      have hoffsets : (f.ip :: offsets).rtake (rest.length + 1) = f.ip :: offsets :=
        rtake_eq [] rfl (congrArg (· + 1) hlength)
      rw [hafter, List.length_cons, Nat.add_sub_cancel, List.length_cons, hoffsets]
      exact .cons hdoing hwaiting
    | leaves hafter =>
      obtain ⟨W, g, below, bp, X, S, st, -, hruns⟩ := hsound.visits (hfetched.visits.step hstep)
      rw [← Exec.after_of_ok hstep] at hruns
      obtain rfl := hafter.symm.trans hruns.calls
      obtain ⟨offset, offsets', -, hrest, rfl⟩ := List.forall₂_cons_left_iff.1 hwaiting
      refine ⟨g, below, hafter, ?_⟩
      have hoffsets : (f.ip :: offset :: offsets').rtake below.length = offsets' :=
        rtake_eq [f.ip, offset] rfl (Nat.succ.inj hlength)
      rwa [hafter, List.length_cons, Nat.add_sub_cancel, hoffsets]
  | pause _ pause ih =>
    obtain ⟨f, rest, hcalls, hwaiting⟩ := ih
    exact ⟨f, rest, hcalls, hwaiting.pause pause⟩

end Machine.Progress

/-! ## Reports -/

namespace Machine

variable {m : Machine} {offsets : List Nat} {ground : Ground}

/-- What a report says in front of the calls. -/
def reportHead (m : Machine) (fault : Fault) : String :=
  border ++ fault.message ++ "\n" ++ border ++ "Stack: " ++
    String.join (m.stack.toList.map fun v => s!"[ {v.debug m.heap} ]") ++ "\n"

/-- A report points at the instructions at some offsets, one for each call in progress. -/
structure Backtrace (m : Machine) (fault : Fault) (offsets : List Nat) : Prop where
  /-- Each call is doing the instruction at its offset. -/
  doing : List.Forall₂ (fun f offset => ∃ op, m.Doing f offset op) m.calls offsets
  /-- All calls but the innermost one wait for what their instructions have called. -/
  waiting : m.Waiting m.calls.tail offsets.tail
  /-- The report lists the calls, innermost first, with the lines of these instructions. -/
  report : m.report fault =
    m.reportHead fault ++ String.join (List.zipWith (frameTextAt m.heap) m.calls offsets)

/-- The lines of a report name the functions and the lines of the instructions that calls are
doing. -/
theorem map_frameText {calls : List Frame}
    (h : List.Forall₂ (fun f offset => ∃ op, m.Doing f offset op) calls offsets) :
    calls.map (frameText m.heap) = List.zipWith (frameTextAt m.heap) calls offsets := by
  induction h with
  | nil => rfl
  | cons hdoing _ ih =>
    obtain ⟨op, hdoing⟩ := hdoing
    rw [List.map_cons, List.zipWith_cons_cons, hdoing.frameText, ih]

/-- Where the calls are doing the instructions at some offsets, a report says so. -/
theorem report_eq {fault : Fault}
    (h : List.Forall₂ (fun f offset => ∃ op, m.Doing f offset op) m.calls offsets) :
    m.report fault =
      m.reportHead fault ++ String.join (List.zipWith (frameTextAt m.heap) m.calls offsets) := by
  rw [← map_frameText h]
  rfl

/-- **Where a run fails**, the report points at the instructions that the calls in progress have
last read. -/
theorem Progress.Fails.traced {start : Progress} {e : RuntimeError} {last : Machine}
    (h : start.Fails e last offsets) (hsound : start.Sound ground)
    (hstart : start.StartsWithCall) : last.Backtrace (.runtime e) offsets := by
  obtain ⟨before, f, rest, below, hfetched, hcalls, hstep, rfl⟩ := h
  obtain ⟨f', rest', hcalls', hwaiting⟩ := hfetched.waiting hsound hstart
  obtain ⟨rfl, rfl⟩ := List.cons.inj (hcalls.symm.trans hcalls')
  have hlength := hwaiting.length_eq
  have hwaiting := hwaiting.step
  have hmoves := (hsound.visits hfetched.visits).moves hcalls (Exec.not_breaks_of_runtime hstep)
  rw [← Exec.after_of_error hstep]
  cases hmoves with
  | stays g hafter hfails =>
    have hoffsets : (f.ip :: below).rtake (rest.length + 1) = f.ip :: below :=
      rtake_eq [] rfl (congrArg (· + 1) hlength)
    rw [hafter, List.length_cons, hoffsets]
    have hdoing : List.Forall₂ (fun g offset => ∃ op, (Exec.step.after before).Doing g offset op)
        (Exec.step.after before).calls (f.ip :: below) :=
      hafter ▸ .cons (hfails _ _ hstep) hwaiting.doing
    exact ⟨hdoing, hafter ▸ hwaiting, report_eq hdoing⟩
  | starts _ _ _ _ hok =>
    obtain ⟨result, m', hok⟩ := hok
    rw [hstep] at hok
    cases hok
  | leaves hafter =>
    have hoffsets : (f.ip :: below).rtake rest.length = below := rtake_eq [f.ip] rfl hlength
    rw [hafter, hoffsets]
    have hdoing : List.Forall₂ (fun g offset => ∃ op, (Exec.step.after before).Doing g offset op)
        (Exec.step.after before).calls below :=
      hafter ▸ hwaiting.doing
    exact ⟨hdoing, hafter ▸ hwaiting.tail, report_eq hdoing⟩

/-! ## Sessions -/

/-- The run of a function without parameters starts with one call. -/
theorem exists_launch_eq {function : FunctionId} (hvalues : m.values = []) (hcalls : m.calls = [])
    (harity : (m.heap.function function).arity = 0) :
    ∃ m', m.launch function = .running m' ∧ m'.calls.length = 1 := by
  have hroom : m.stack.size < stackLimit := by
    rw [m.size_stack, hvalues]
    decide
  have hframes : m.frames.size < frameLimit := by
    rw [← Stack.length_down, show m.frames.down = [] from hcalls]
    decide
  let made : Machine := { m with heap := (m.heap.newClosure ⟨function, #[]⟩).2 }
  let id : ClosureId := (m.heap.newClosure ⟨function, #[]⟩).1
  let called : Machine := { made with stack := m.stack.pushOf (.closureRef id) hroom }
  have hpush : Exec.push (.closureRef id) made = .ok () called := dif_pos hroom
  have hpushed : called.values = [.closureRef id] := by
    show (m.stack.pushOf _ hroom).down = _
    rw [Stack.down_pushOf, ← values, hvalues]
  have hfunction : (called.heap.functionOf id).arity = 0 := by
    rw [← harity]
    simp [called, made, id, Heap.newClosure, Heap.functionOf, Heap.closure, Heap.function]
  have henter : Exec.enter id 0 .finish called =
      .ok () { called with frames := m.frames.pushOf ⟨id, 0, 0, .finish⟩ hframes } := by
    rw [Exec.enter, Exec.bind_of_ok (show Exec.heap called = .ok called.heap called from rfl)]
    dsimp only
    rw [if_neg (by simp [hfunction])]
    exact (Exec.bind_of_ok (Exec.calleeSlot_eq (n := 0) (by rw [hpushed]; rfl))).trans
      (dif_pos hframes)
  refine ⟨{ called with frames := m.frames.pushOf ⟨id, 0, 0, .finish⟩ hframes }, ?_, ?_⟩
  · rw [Machine.launch, Exec.launch,
      Exec.bind_of_ok (show Exec.allocate _ m = .ok id made from rfl),
      Exec.bind_of_ok hpush, henter]
  · show (m.frames.pushOf _ hframes).down.length = 1
    rw [Stack.down_pushOf, ← calls, hcalls]
    rfl

/-- **A compiled source starts** between two runs. -/
theorem Rests.launches {source : String} {program : Program} (h : m.Rests)
    (hcompile : Program.compileAfter m.heap.functions source = .ok program) :
    ∃ m', (m.load program).launch program.main = .running m' ∧ m'.calls.length = 1 := by
  obtain ⟨_, ⟨W, -, hat⟩, hcalls⟩ := h
  obtain ⟨bps, bp, -, -, htable, hmain, -, -, hparameters⟩ :=
    compileAfter_fits hcompile hat.heap.table
  have hbp : (bps ++ [bp])[program.main.index]? = some bp := by
    rw [hmain]
    simp
  have harity := (TableFits.function (m.load program).heap htable hbp).2.arity
  rw [hparameters] at harity
  exact exists_launch_eq (List.forall₂_nil_right_iff.1 hat.values) hcalls
    (UInt8.toNat_inj.1 harity.symm)

end Machine

namespace Session

variable {natives : List Native} {s s' : Session} {source : String} {pauses : List Pause}
  {e : RuntimeError}

/-- The sessions that come from a new one by runs, however these ended.  To interpret a source is to
load the prelude and to run the source. -/
inductive Used (natives : List Native) : Session → Prop
  | new (sink : Sink) (now : Float) : Used natives (Session.new natives sink now)
  | pause {s : Session} (h : Used natives s) (pause : Pause) :
      Used natives { s with machine := pause.apply s.machine }
  | run {s s' : Session} {source : String} {outcome : Interpreted} (h : Used natives s)
      (pauses : List Pause) (hrun : s.run (.paced pauses) source = some (outcome, s')) :
      Used natives s'
  | load {s s' : Session} {outcome : Except InterpretError Unit} (h : Used natives s)
      (pauses : List Pause) (hload : s.loadPrelude (.paced pauses) = some (outcome, s')) :
      Used natives s'

/-- A run leaves a machine at rest. -/
theorem rests_of_run {outcome : Interpreted} (h : s.machine.Rests)
    (hrun : s.run (.paced pauses) source = some (outcome, s')) : s'.machine.Rests := by
  rcases run_cases hrun with ⟨rfl, -⟩ | ⟨last, result, hruns, -⟩
  · exact h
  · exact hruns.rests h

/-- Sessions rest between runs, however these have ended. -/
theorem Used.rests (h : Used natives s) : s.machine.Rests := by
  induction h with
  | new sink now => exact (clean_new natives sink now).rests
  | pause _ pause ih =>
    obtain ⟨blueprints, ⟨W, hground, hat⟩, hcalls⟩ := ih
    exact ⟨blueprints, ⟨W, hground, hat.heap, hat.globals, hat.values, hat.cells⟩, hcalls⟩
  | run _ pauses hrun ih => exact rests_of_run ih hrun
  | @load s s' outcome _ pauses hload ih =>
    unfold loadPrelude at hload
    split at hload
    · obtain ⟨-, rfl⟩ := Prod.mk.inj (Option.some.inj hload)
      exact ih
    · obtain ⟨⟨outcome, s''⟩, hrun, hreturn⟩ := Option.bind_eq_some_iff.1 hload
      obtain ⟨-, rfl⟩ := Prod.mk.inj (Option.some.inj hreturn)
      exact rests_of_run (s := { s with preludeLoaded := true }) ih hrun

/-- **A backtrace points at the right instructions.**  When a run of a compiled source fails because
of the program, the report lists the calls in progress, innermost first, each with the line of the
instruction that it has last read: the innermost call is doing that instruction, and each other one
waits for what its instruction has called. -/
theorem Used.backtrace (h : Used natives s)
    (hrun : s.run (.paced pauses) source = some (.error (.fault (.runtime e)), s')) :
    ∃ program last offsets, Program.compileAfter s.machine.heap.functions source = .ok program ∧
      ((s.machine.load program).launch program.main).Fails e last offsets ∧
      last.Backtrace (.runtime e) offsets ∧ s'.machine = last.abandon (.runtime e) := by
  rcases run_cases hrun with ⟨-, errors, herror⟩ | ⟨_, result, ⟨program, hcompile, hends⟩, hresult⟩
  · cases herror
  obtain rfl : result = .error (.runtime e) := by
    cases result with
    | ok value => cases hresult
    | error fault =>
      cases hresult
      rfl
  obtain ⟨blueprints, hsound⟩ := h.rests.launch hcompile
  obtain ⟨m₀, hlaunch, hsingle⟩ := h.rests.launches hcompile
  have hstart : ((s.machine.load program).launch program.main).StartsWithCall := by
    intro m hm
    rw [hlaunch] at hm
    cases hm
    exact hsingle
  -- A compiled source starts, so the fault is that of a step.
  obtain ⟨last, hend⟩ : ∃ last, s'.machine = last.abandon (.runtime e) ∧
      ∃ before, ((s.machine.load program).launch program.main).Visits before ∧
        Exec.step before = .error (.runtime e) last := by
    generalize s'.machine = m' at hends
    cases hends with
    | failed hvisits hstep => exact ⟨_, rfl, _, hvisits, hstep⟩
    | unstarted hfailed =>
      rw [hlaunch] at hfailed
      cases hfailed
  obtain ⟨hmachine, before, hvisits, hstep⟩ := hend
  obtain ⟨below, hfetched⟩ := hvisits.exists_fetched hsound
  obtain ⟨f, rest, hcalls, -⟩ := hfetched.waiting hsound hstart
  have hfails : ((s.machine.load program).launch program.main).Fails e last
      ((f.ip :: below).rtake last.calls.length) :=
        ⟨before, f, rest, below, hfetched, hcalls, hstep, rfl⟩
  exact ⟨program, last, _, hcompile, hfails, hfails.traced hsound hstart, hmachine⟩

/-- A function that fails on its second line, called by another one on the fifth. -/
def failingSource : String :=
  "func inner() \x7b\n  return 1 +\n  nil;\n\x7d\nfunc outer() \x7b return inner(); \x7d\nouter();"

/-- Whether a run fails because of the program. -/
def failsAtRuntime : Option (Interpreted × Session) → Bool
  | some (.error (.fault (.runtime _)), _) => true
  | _ => false

/-- A run that fails because of the program gives the error and a session. -/
theorem exists_of_failsAtRuntime {result : Option (Interpreted × Session)}
    (h : failsAtRuntime result = true) :
    ∃ e s', result = some (.error (.fault (.runtime e)), s') := by
  unfold failsAtRuntime at h
  split at h
  · exact ⟨_, _, rfl⟩
  · cases h

/-- The backtrace of a call inside a call. -/
theorem Used.backtrace_inner : ∃ e s', (Session.new Native.all .reliable 0).run
      (.paced [⟨100, id, 0⟩]) failingSource = some (.error (.fault (.runtime e)), s') ∧
    ∃ program last offsets, Program.compileAfter #[] failingSource = .ok program ∧
      (((Machine.new Native.all .reliable 0).load program).launch program.main).Fails e
        last offsets ∧
      last.Backtrace (.runtime e) offsets ∧ s'.machine = last.abandon (.runtime e) := by
  have hfails : failsAtRuntime ((Session.new Native.all .reliable 0).run (.paced [⟨100, id, 0⟩])
      failingSource) = true := by
    decide +kernel
  obtain ⟨e, s', hrun⟩ := exists_of_failsAtRuntime hfails
  exact ⟨e, s', hrun, (Used.new .reliable 0).backtrace hrun⟩

end Session

end ScriptVM
