/-
# Running machines

Before each instruction of a run the innermost call stands at a point of its marked code, and the
machine has the slots of that point (`RunsAt`).  While a class is declared more is known
(`Stage.Holds`): where the class is kept, that it is the newest one and has no members before it
inherits, and that the value it inherits from is another one.  This is what makes sure that no class
inherits from itself, and that members are only given to the class that is being declared.
-/
import ScriptVM.Proofs.Machine.Calls

namespace ScriptVM

/-! ## Declarations of classes -/

/-- A class is kept where a declaration says, in a call whose slots count from `base`. -/
def Home.Holds (base : Nat) (values : List Value) (globals : Bindings Value) (id : ClassId) :
    Home → Prop
  | .global name => globals.get? name = some (.classRef id)
  | .slot i => slot? values (base + i) = some (.classRef id)

/-- A class stays where it is kept while values are pushed. -/
theorem Home.Holds.push {base : Nat} {values : List Value} {globals : Bindings Value} {id : ClassId}
    {home : Home} (h : home.Holds base values globals id) (v : Value) :
    home.Holds base (v :: values) globals id := by
  cases home with
  | global name => exact h
  | slot i => exact slot?_append_of_some (X := [v]) h

/-- No variable holds a class but the one in which it is kept. -/
structure Home.Alone (base : Nat) (m : Machine) (id : ClassId) (home : Home) : Prop where
  /-- No other slot holds it. -/
  slots : ∀ j, slot? m.values j = some (.classRef id) → ∃ i, home = .slot i ∧ j = base + i
  /-- No other global variable holds it. -/
  globals : ∀ name, m.globals.get? name = some (.classRef id) → home = .global name
  /-- No captured variable holds it. -/
  cells : ∀ cell : CellId, cell.index < m.heap.cells.size → ¬Exec.Holds m cell (.classRef id)

/-- A class is the newest one. -/
def Heap.Newest (heap : Heap) (id : ClassId) : Prop :=
  id.index + 1 = heap.classes.size

/-- A class is the newest one, and has no members yet. -/
structure Heap.Blank (heap : Heap) (id : ClassId) : Prop where
  /-- It is the newest one. -/
  newest : heap.Newest id
  /-- It has no methods. -/
  methods : (heap.classAt id).methods = .empty
  /-- It has no computed properties. -/
  properties : (heap.classAt id).properties = .empty

/-- A new class is the newest one, and has no members. -/
theorem Heap.blank_newClass (heap : Heap) (name : String) :
    (heap.newClass name).2.Blank ⟨heap.classes.size⟩ := by
  have hclass : (heap.newClass name).2.classAt ⟨heap.classes.size⟩ = ⟨name, .empty, .empty⟩ := by
    simp [Heap.newClass, Heap.classAt]
  refine ⟨?_, ?_, ?_⟩
  · simp [Heap.Newest, Heap.newClass]
  · rw [hclass]
  · rw [hclass]

/-- What is known of a machine at a stage of a declaration.  That no other variable holds a new
class is known only if no cell of an earlier run can stand for its slot (`trusted`). -/
def Stage.Holds (trusted : Prop) (base : Nat) (m : Machine) : Stage → Prop
  | .plain => True
  | .fresh home => ∃ id, m.heap.Blank id ∧ home.Holds base m.values m.globals id ∧
      (trusted → home.Alone base m id)
  | .chosen home => ∃ id v, m.heap.Blank id ∧ home.Holds base m.values m.globals id ∧
      m.values[0]? = some v ∧ (trusted → v ≠ .classRef id)
  | .paired home => ∃ id v values, m.heap.Blank id ∧ m.values = .classRef id :: v :: values ∧
      home.Holds base (v :: values) m.globals id ∧ (trusted → v ≠ .classRef id)
  | .settled home => ∃ id, m.heap.Newest id ∧ home.Holds base m.values m.globals id
  | .held _ => ∃ id values, m.heap.Newest id ∧ m.values = .classRef id :: values
  | .adding _ initializes => ∃ member id values, m.heap.Newest id ∧
      m.values = .closureRef member :: .classRef id :: values ∧
      (initializes = true → (m.heap.functionOf member).kind = .initializer)
  | .bound => True
  | .own => ∃ v values, m.values = v :: values ∧ slot? m.values base = some v

/-- The class at home of a declaration that can go on with its members. -/
theorem Stage.Holds.home {trusted : Prop} {base : Nat} {m : Machine} {st : Stage} {home : Home}
    {derived : Bool} (h : st.Holds trusted base m)
    (hst : st = if derived then .settled home else .fresh home) :
    ∃ id, m.heap.Newest id ∧ home.Holds base m.values m.globals id := by
  subst hst
  cases derived with
  | false =>
    obtain ⟨id, hblank, hholds, -⟩ := h
    exact ⟨id, hblank.newest, hholds⟩
  | true => exact h

/-- A closure goes on top of the class that is to be given it. -/
theorem Stage.Holds.withClosure {trusted : Prop} {base : Nat} {m m' : Machine} {st : Stage}
    {closure : ClosureId} {initializes : Bool} (h : st.Holds trusted base m)
    (hvalues : m'.values = .closureRef closure :: m.values)
    (hclasses : m'.heap.classes = m.heap.classes)
    (hinit : initializes = true → (m'.heap.functionOf closure).kind = .initializer) :
    (st.withClosure initializes).Holds trusted base m' := by
  cases st with
  | held derived =>
    obtain ⟨id, values, hnewest, htop⟩ := h
    refine ⟨closure, id, values, ?_, ?_, hinit⟩
    · rw [Heap.Newest, hclasses]
      exact hnewest
    · rw [hvalues, htop]
  | _ => trivial

/-! ## Running machines -/

/-- A machine runs at a point of the innermost call. -/
structure RunsAt (W : World) (m : Machine) (f : Frame) (rest : List Frame) (bp : Blueprint)
    (X below : Shape) (st : Stage) : Prop where
  /-- The machine has the slots of the point, above those of the other calls. -/
  typed : At W (X ++ bp.receiver :: below) m
  /-- The innermost call comes first. -/
  calls : m.calls = f :: rest
  /-- It runs the function of a blueprint. -/
  function : W.closures[f.closure.index]? = some bp
  /-- Its slots count from the callee. -/
  slots : f.slots = below.length
  /-- The other calls wait for its result. -/
  waits : Waits W f.resume.trade? rest below
  /-- It stands at a point of the code. -/
  point : bp.marks.point? none f.ip = some ⟨X, st⟩
  /-- What is known at the point holds. -/
  stage : st.Holds (Trusted W.stale) below.length m

/-- A machine runs. -/
def Machine.Running (ground : Ground) (m : Machine) : Prop :=
  ∃ W f rest bp X below st, W.toGround = ground ∧ RunsAt W m f rest bp X below st

/-- A machine runs where it has come to a stage of a declaration, of which it may know no more,
unless a closure still has to be given to its class. -/
def Machine.RunsOn (ground : Ground) (st : Stage) (m : Machine) : Prop :=
  ∃ W f rest bp X below st', W.toGround = ground ∧ RunsAt W m f rest bp X below st' ∧
    (st' = st ∨ st' = .plain ∧ st.isAdding = false)

theorem Machine.RunsOn.running {ground : Ground} {st : Stage} {m : Machine}
    (h : m.RunsOn ground st) : m.Running ground := by
  obtain ⟨W, f, rest, bp, X, below, st', hground, h, -⟩ := h
  exact ⟨W, f, rest, bp, X, below, st', hground, h⟩

/-- What holds behind an instruction: the run goes on, or it has ended. -/
def Machine.Continues (ground : Ground) (m : Machine) (result : Option Value) : Prop :=
  match result with
  | none => m.Running ground
  | some _ => m.Quiet ground

/-- What holds behind an instruction that comes to a stage of a declaration. -/
def Machine.ContinuesOn (ground : Ground) (st : Stage) (m : Machine)
    (result : Option Value) : Prop :=
  match result with
  | none => m.RunsOn ground st
  | some _ => m.Quiet ground

/-- What is known of the stage may be left out. -/
theorem Machine.ContinuesOn.continues {ground : Ground} {st : Stage} {m : Machine}
    {result : Option Value} (h : m.ContinuesOn ground st result) : m.Continues ground result := by
  cases result with
  | none => exact Machine.RunsOn.running h
  | some value => exact h

/-- A machine runs where what it leaves behind is known. -/
theorem Machine.RunsOn.of_reaches {W : World} {m : Machine} {f : Frame} {rest : List Frame}
    {bp : Blueprint} {X below : Shape} {st : Stage} (h : At W (X ++ bp.receiver :: below) m)
    (hcalls : m.calls = f :: rest) (hbp : W.closures[f.closure.index]? = some bp)
    (hslots : f.slots = below.length) (hw : Waits W f.resume.trade? rest below)
    (hreaches : Reaches (bp.marks.point? none) f.ip ⟨X, st⟩)
    (hst : st.Holds (Trusted W.stale) below.length m) : m.RunsOn W.toGround st := by
  obtain ⟨⟨Y, st'⟩, hpoint, hle, hstage⟩ := hreaches
  refine ⟨W, f, rest, bp, Y, below, st', rfl, ⟨?_, hcalls, hbp, hslots, hw, hpoint, ?_⟩, hstage⟩
  · exact h.le (hle.append (Shape.Le.refl _))
  · rcases hstage with hsame | ⟨hplain, -⟩
    · obtain rfl : st' = st := hsame
      exact hst
    · obtain rfl : st' = .plain := hplain
      trivial

/-- A machine that is ready runs, at no particular stage. -/
theorem Machine.Ready.runsOn {ground : Ground} {m : Machine} (h : m.Ready ground) :
    m.RunsOn ground .plain := by
  obtain ⟨W, S, rfl, hat, hw⟩ := h
  generalize hcalls : m.calls = calls at hw
  cases hw with
  | call hbp hslots hreaches hrest =>
    exact .of_reaches hat hcalls hbp hslots hrest hreaches trivial

/-- A machine that has settled goes on at no particular stage. -/
theorem Machine.Settled.continuesOn {ground : Ground} {result : Option Value} {m : Machine}
    (h : m.Settled ground result) : m.ContinuesOn ground .plain result := by
  cases result with
  | none => exact Machine.Ready.runsOn h
  | some value => exact h

namespace RunsAt

variable {W : World} {m m' : Machine} {f : Frame} {rest : List Frame} {bp : Blueprint}
  {X Y below : Shape} {st : Stage} {given : Shape} {ip : Nat}

/-- The function of the innermost call is as its blueprint says. -/
theorem fits (h : RunsAt W m f rest bp X below st) :
    (m.heap.functionOf f.closure).Fits W.blueprints bp :=
  h.typed.heap.functionOf h.function

/-- The closure of the innermost call is there. -/
theorem closure_lt (h : RunsAt W m f rest bp X below st) :
    f.closure.index < m.heap.closures.size := by
  rw [← Array.length_toList, h.typed.heap.closures.length_eq]
  exact (List.getElem?_eq_some_iff.1 h.function).1

/-- The slots of the innermost call are counted from its callee. -/
theorem slot (h : RunsAt W m f rest bp X below st) {i : Nat} {s : Slot}
    (hs : slot? (X ++ [bp.receiver]) i = some s) :
    slot? (X ++ bp.receiver :: below) (f.slots + i) = some s := by
  have hslot := slot?_append_right (X ++ [bp.receiver]) below i
  rw [List.append_assoc, List.singleton_append, ← h.slots, hs] at hslot
  exact hslot

/-- The call goes on where what it is given is known. -/
theorem goesOn (h : RunsAt W m f rest bp X below st)
    (hreaches : Reaches (bp.marks.point? none) ip (.at (given ++ Y))) :
    GoesOn W given (m.moveTo ip).calls (Y ++ bp.receiver :: below) := by
  rw [Machine.calls_moveTo h.calls]
  exact Waits.call (f := { f with ip }) h.function h.slots hreaches h.waits

/-- The machine runs on at another place, with what is known there. -/
theorem runsOn (h : RunsAt W m f rest bp X below st) {V : World} (hle : W.Le V)
    (hstale : V.toGround = W.toGround) (hat : At V (Y ++ bp.receiver :: below) m')
    (hcalls : m'.calls = (m.moveTo ip).calls) {st' : Stage}
    (hreaches : Reaches (bp.marks.point? none) ip ⟨Y, st'⟩)
    (hst : st'.Holds (Trusted W.stale) below.length m') : m'.RunsOn W.toGround st' := by
  rw [Machine.calls_moveTo h.calls] at hcalls
  rw [← hstale] at hst ⊢
  exact .of_reaches hat hcalls (getElem?_of_isPrefix hle.closures h.function) h.slots
    (h.waits.mono hle) hreaches hst

end RunsAt

end ScriptVM
