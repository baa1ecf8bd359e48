/-
# Sessions on any sink

A session is asked to interpret sources, to run them or to run a function that is already there, one
after the other (`Session.serve`).  The answers and the states behind them do not depend on where
the output goes: not on which writes are refused, and not on what happens to the output in between.

Main statement: `Session.serve_unaffected`.
-/
import ScriptVM.Proofs.Machine.Sinks

namespace ScriptVM

/-- What a session is asked to do. -/
inductive Request where
  /-- Compiles and runs a source, after the prelude. -/
  | interpret (source : String)
  /-- Compiles and runs a source. -/
  | run (source : String)
  /-- Runs a function that is put together on the heap. -/
  | bytecode (make : Heap → FunctionId × Heap)

/-- A request, the pauses of its runs, and what becomes of the output before it. -/
structure Turn where
  /-- The request. -/
  request : Request
  /-- The pauses. -/
  pauses : List Pause
  /-- What becomes of the output. -/
  sink : Sink → Sink

/-- Turns with one request and with pauses at the same times; the output may be treated
differently. -/
def Turn.Redirected (turn turn' : Turn) : Prop :=
  turn.request = turn'.request ∧ List.Forall₂ Pause.Redirected turn.pauses turn'.pauses

namespace Session

/-- The session with another heap. -/
def withHeap (s : Session) (heap : Heap) : Session :=
  { s with machine := { s.machine with heap } }

/-- Does what a session is asked to do. -/
def answer (s : Session) (runner : Runner Option) : Request → Option (Interpreted × Session)
  | .interpret source => s.interpret runner source
  | .run source => s.run runner source
  | .bytecode make =>
    let (id, heap) := make s.machine.heap
    (s.withHeap heap).runFunction runner id

/-- The answers to requests, each with the session behind it, up to the first run that does not come
to its end. -/
def serve (s : Session) : List Turn → List (Interpreted × Session)
  | [] => []
  | turn :: rest =>
    match (s.modifySink turn.sink).answer (.paced turn.pauses) turn.request with
    | some (answer, s') => (answer, s') :: serve s' rest
    | none => []

/-! ## Redirected sessions -/

/-- Two sessions that are the same but for where the programs write. -/
structure Redirected (s s' : Session) : Prop where
  /-- So are their machines. -/
  machine : s.machine.Redirected s'.machine
  /-- The prelude has been started in both or in neither. -/
  preludeLoaded : s.preludeLoaded = s'.preludeLoaded

/-- Answers that are the same, with sessions that are alike. -/
def SameAnswer {α : Type} (r r' : α × Session) : Prop :=
  r.1 = r'.1 ∧ r.2.Redirected r'.2

/-- Computations that are related step by step are related. -/
theorem rel_bind {α β γ δ : Type} {R : α → β → Prop} {S : γ → δ → Prop} {x : Option α}
    {y : Option β} {f : α → Option γ} {g : β → Option δ} (h : Option.Rel R x y)
    (hf : ∀ a b, R a b → Option.Rel S (f a) (g b)) : Option.Rel S (x >>= f) (y >>= g) := by
  cases h with
  | none => exact .none
  | some hab => exact hf _ _ hab

/-- Sessions that differ in where they write differ in nothing else. -/
theorem Redirected.exists_sink {s s' : Session} (h : s.Redirected s') :
    ∃ sink, s' = s.modifySink fun _ => sink := by
  obtain ⟨sink, hsink⟩ := h.machine.exists_sink
  obtain ⟨machine, preludeLoaded⟩ := s'
  obtain rfl : machine = _ := hsink
  obtain rfl : s.preludeLoaded = preludeLoaded := h.preludeLoaded
  exact ⟨sink, rfl⟩

theorem redirected_modifySink {s s' : Session} (h : s.Redirected s') (f g : Sink → Sink) :
    (s.modifySink f).Redirected (s'.modifySink g) := by
  obtain ⟨sink, rfl⟩ := h.exists_sink
  exact ⟨rfl, rfl⟩

theorem redirected_withHeap (s : Session) (sink : Sink) (heap : Heap) :
    (s.withHeap heap).Redirected ((s.modifySink fun _ => sink).withHeap heap) :=
  ⟨rfl, rfl⟩

section

variable {s s' : Session} {pauses pauses' : List Pause}
  (hpauses : List.Forall₂ Pause.Redirected pauses pauses') (h : s.Redirected s')

include hpauses h

/-- A function is run with the same answer wherever the output goes. -/
theorem runFunction_redirected (function : FunctionId) :
    Option.Rel SameAnswer (s.runFunction (.paced pauses) function)
      (s'.runFunction (.paced pauses') function) := by
  have hlaunch := Machine.launch_redirected h.machine function
  exact rel_bind (Runner.paced_redirected hpauses hlaunch) fun _ _ hend =>
    .some ⟨hend.1 ▸ rfl, hend.2, h.preludeLoaded⟩

/-- A source is run with the same answer wherever the output goes. -/
theorem run_redirected (source : String) :
    Option.Rel SameAnswer (s.run (.paced pauses) source) (s'.run (.paced pauses') source) := by
  obtain ⟨sink, rfl⟩ := h.exists_sink
  have hfunctions :
      (s.modifySink fun _ => sink).machine.heap.functions = s.machine.heap.functions := rfl
  rw [run, run, hfunctions]
  split
  · exact .some ⟨rfl, h⟩
  · next program _ =>
    have hloaded :=
      redirected_withHeap s sink { s.machine.heap with functions := program.functions }
    exact runFunction_redirected hpauses hloaded program.main

/-- The prelude is loaded with the same answer wherever the output goes. -/
theorem loadPrelude_redirected :
    Option.Rel SameAnswer (s.loadPrelude (.paced pauses)) (s'.loadPrelude (.paced pauses')) := by
  rw [loadPrelude, loadPrelude, ← h.preludeLoaded]
  split
  · exact .some ⟨rfl, h⟩
  · have hloading : ({ s with preludeLoaded := true } : Session).Redirected
        { s' with preludeLoaded := true } := ⟨h.machine, rfl⟩
    exact rel_bind (run_redirected hpauses hloading prelude) fun _ _ hrun =>
      .some ⟨congrArg (Except.map fun _ => ()) hrun.1, hrun.2⟩

/-- A source is interpreted with the same answer wherever the output goes. -/
theorem interpret_redirected (source : String) :
    Option.Rel SameAnswer (s.interpret (.paced pauses) source)
      (s'.interpret (.paced pauses') source) := by
  refine rel_bind (loadPrelude_redirected hpauses h) fun r r' hload => ?_
  obtain ⟨outcome, s₁⟩ := r
  obtain ⟨outcome', s₁'⟩ := r'
  obtain ⟨rfl, hs₁⟩ := hload
  cases outcome with
  | error e => exact .some ⟨rfl, hs₁⟩
  | ok _ => exact run_redirected hpauses hs₁ source

/-- Every request is answered alike wherever the output goes. -/
theorem answer_redirected (request : Request) :
    Option.Rel SameAnswer (s.answer (.paced pauses) request)
      (s'.answer (.paced pauses') request) := by
  cases request with
  | interpret source => exact interpret_redirected hpauses h source
  | run source => exact run_redirected hpauses h source
  | bytecode make =>
    obtain ⟨sink, rfl⟩ := h.exists_sink
    exact runFunction_redirected hpauses (redirected_withHeap s sink _) _

omit hpauses in
/-- Sessions that are alike give the same answers and stay alike. -/
theorem serve_redirected {turns turns' : List Turn}
    (hturns : List.Forall₂ Turn.Redirected turns turns') :
    List.Forall₂ SameAnswer (s.serve turns) (s'.serve turns') := by
  induction hturns generalizing s s' with
  | nil => exact .nil
  | @cons turn turn' rest rest' hturn _ ih =>
    have hsinks := redirected_modifySink h turn.sink turn'.sink
    have hanswer := answer_redirected hturn.2 hsinks turn.request
    rw [serve, serve, ← hturn.1]
    generalize (s.modifySink turn.sink).answer (.paced turn.pauses) turn.request = r at hanswer ⊢
    generalize (s'.modifySink turn'.sink).answer (.paced turn'.pauses) turn.request = r'
      at hanswer ⊢
    cases hanswer with
    | none => exact .nil
    | some hsame => exact .cons hsame (ih hsame.2)

end

/-- **A sink that refuses writes changes nothing but the output.**  Whatever a session is asked to
do, its answers, its global variables and its heap are the same on any two sinks. -/
theorem serve_unaffected (natives : List Native) (sink sink' : Sink) (now : Float)
    {turns turns' : List Turn} (hturns : List.Forall₂ Turn.Redirected turns turns') :
    List.Forall₂ (fun r r' => r.1 = r'.1 ∧ r.2.machine.globals = r'.2.machine.globals ∧
        r.2.machine.heap = r'.2.machine.heap)
      ((new natives sink now).serve turns) ((new natives sink' now).serve turns') := by
  have hnew : (new natives sink now).Redirected (new natives sink' now) := ⟨rfl, rfl⟩
  exact (serve_redirected hnew hturns).imp fun _ _ h =>
    ⟨h.1, h.2.machine.globals_eq, h.2.machine.heap_eq⟩

/-- A run that prints and then fails, and one that prints. -/
def failingTurns (sink : Sink → Sink) : List Turn :=
  [⟨.run "var x = 1; print x; x();", [⟨100, sink, 0⟩], id⟩, ⟨.run "print x;", [⟨100, id, 0⟩], sink⟩]

/-- Every write is refused on one sink and none on the other; the report of the fault is written
too. -/
theorem serve_unaffected_refused :
    ((new Native.all .reliable 0).serve (failingTurns Sink.drain)).length = 2 ∧
    List.Forall₂ (fun r r' => r.1 = r'.1 ∧ r.2.machine.globals = r'.2.machine.globals ∧
        r.2.machine.heap = r'.2.machine.heap)
      ((new Native.all .broken 0).serve (failingTurns id))
      ((new Native.all .reliable 0).serve (failingTurns Sink.drain)) := by
  have hlength : ((new Native.all .reliable 0).serve (failingTurns Sink.drain)).length = 2 := by
    decide +kernel
  have hpause : ∀ sink sink', Pause.Redirected ⟨100, sink, 0⟩ ⟨100, sink', 0⟩ :=
    fun _ _ => ⟨rfl, rfl⟩
  exact ⟨hlength, serve_unaffected Native.all .broken .reliable 0 <|
    .cons ⟨rfl, .cons (hpause id Sink.drain) .nil⟩ (.cons ⟨rfl, .cons (hpause id id) .nil⟩ .nil)⟩

end Session

end ScriptVM
