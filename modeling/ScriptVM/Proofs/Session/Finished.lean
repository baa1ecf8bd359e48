/-
# Classes that are finished

A class is given members only while it is being declared, and as long as that lasts it is the newest
class.  So the classes that there are between two runs keep their members for ever, whatever runs
follow and however these end.  Functions and closures stay as they are, too, and instances stay
instances of their class (`Heap.Keeps`).

Main statement: `Machine.Later.keeps`.
-/
import ScriptVM.Proofs.Session.Lasting
import ScriptVM.Proofs.Session.Overriding

namespace ScriptVM

/-! ## What stays of the objects -/

/-- The classes of the instances. -/
def Heap.instanceClasses (heap : Heap) : List ClassId :=
  heap.instances.toList.map (·.classId)

/-- The objects of a heap are still there in another one, and the first classes have the same
members. -/
structure Heap.Keeps (count : Nat) (heap heap' : Heap) : Prop where
  /-- The functions are the same. -/
  functions : heap.functions.toList <+: heap'.functions.toList
  /-- The closures are the same. -/
  closures : heap.closures.toList <+: heap'.closures.toList
  /-- There are no fewer classes. -/
  size : heap.classes.size ≤ heap'.classes.size
  /-- The first classes have the same members. -/
  classAt : ∀ id : ClassId, id.index < count → heap'.classAt id = heap.classAt id
  /-- The instances are of the same classes. -/
  instances : heap.instanceClasses <+: heap'.instanceClasses

namespace Heap.Keeps

variable {count : Nat} {a b c : Heap}

theorem refl (count : Nat) (heap : Heap) : heap.Keeps count heap :=
  ⟨List.prefix_rfl, List.prefix_rfl, Nat.le_refl _, fun _ _ => rfl, List.prefix_rfl⟩

/-- What is kept in two parts of a run is kept. -/
theorem trans (h : a.Keeps count b) (h' : b.Keeps count c) : a.Keeps count c where
  functions := h.functions.trans h'.functions
  closures := h.closures.trans h'.closures
  size := Nat.le_trans h.size h'.size
  classAt id hid := (h'.classAt id hid).trans (h.classAt id hid)
  instances := h.instances.trans h'.instances

/-- An instance stays an instance of its class. -/
theorem classId (h : a.Keeps count b) {id : InstanceId} (hid : id.index < a.instances.size) :
    (b.instanceAt id).classId = (a.instanceAt id).classId ∧ id.index < b.instances.size := by
  have hold : a.instanceClasses[id.index]? = some (a.instanceAt id).classId := by
    rw [Heap.instanceClasses, List.getElem?_map, Array.getElem?_toList, Heap.instanceAt,
      Array.getD_eq_getD_getElem?,
      Array.getElem?_eq_getElem hid]
    rfl
  have hnew := getElem?_of_isPrefix h.instances hold
  rw [Heap.instanceClasses, List.getElem?_map, Array.getElem?_toList,
    Option.map_eq_some_iff] at hnew
  obtain ⟨i, hi, hclass⟩ := hnew
  refine ⟨?_, (Array.getElem?_eq_some_iff.1 hi).1⟩
  rw [Heap.instanceAt, Array.getD_eq_getD_getElem?, hi]
  exact hclass

/-- A closure stays what it is. -/
theorem closure (h : a.Keeps count b) {id : ClosureId} (hid : id.index < a.closures.size) :
    b.closure id = a.closure id := by
  have hold := Array.getElem?_eq_getElem hid
  rw [← Array.getElem?_toList] at hold
  have hnew := getElem?_of_isPrefix h.closures hold
  rw [Array.getElem?_toList] at hold hnew
  rw [Heap.closure, Heap.closure, Array.getD_eq_getD_getElem?, Array.getD_eq_getD_getElem?,
    hold, hnew]

/-- A function stays what it is. -/
theorem function (h : a.Keeps count b) {id : FunctionId} (hid : id.index < a.functions.size) :
    b.function id = a.function id := by
  have hold := Array.getElem?_eq_getElem hid
  rw [← Array.getElem?_toList] at hold
  have hnew := getElem?_of_isPrefix h.functions hold
  rw [Array.getElem?_toList] at hold hnew
  rw [Heap.function, Heap.function, Array.getD_eq_getD_getElem?, Array.getD_eq_getD_getElem?,
    hold, hnew]

end Heap.Keeps

namespace Machine

variable {m m' : Machine} {op : Opcode}

/-- No small change takes an object away, or a function. -/
theorem Change.keeps (h : m.Change op m') :
    m'.heap.functions = m.heap.functions ∧ m.heap.classes.size ≤ m'.heap.classes.size ∧
      m.heap.instanceClasses <+: m'.heap.instanceClasses := by
  cases h with
  | close bottom =>
    obtain ⟨cells, hcells⟩ := m.heap_closeCells bottom
    rw [hcells]
    exact ⟨rfl, Nat.le_refl _, List.prefix_rfl⟩
  | newClass name _ =>
    refine ⟨rfl, ?_, List.prefix_rfl⟩
    show _ ≤ (m.heap.classes.push _).size
    rw [Array.size_push]
    exact Nat.le_succ _
  | newInstance id =>
    refine ⟨rfl, Nat.le_refl _, ?_⟩
    show _ <+: ((m.heap.instances.push _).toList).map _
    rw [Array.toList_push, List.map_append]
    exact List.prefix_append _ _
  | field id name value =>
    have hsame : (m.heap.setField id name value).instanceClasses = m.heap.instanceClasses := by
      refine List.ext_getElem? fun i => ?_
      rw [Heap.instanceClasses, Heap.instanceClasses, List.getElem?_map, List.getElem?_map,
        Array.getElem?_toList, Array.getElem?_toList,
        Heap.setField, Array.getElem?_modify]
      split
      · rw [Option.map_map]
        rfl
      · rfl
    exact ⟨rfl, Nat.le_refl _, hsame ▸ List.prefix_rfl⟩
  | method id name member _ => exact ⟨rfl, by simp [Heap.defineMethod], List.prefix_rfl⟩
  | property id name member _ => exact ⟨rfl, by simp [Heap.defineProperty], List.prefix_rfl⟩
  | inherit subclass superclass _ => exact ⟨rfl, by simp [Heap.inherit], List.prefix_rfl⟩
  | _ => exact ⟨rfl, Nat.le_refl _, List.prefix_rfl⟩

end Machine

/-- **A step takes no object away**, and keeps the first classes if their members stay the same. -/
theorem Exec.keeps_of_step {m : Machine} {count : Nat}
    (h : ∀ id : ClassId, id.index < count →
      (Exec.step.after m).heap.classAt id = m.heap.classAt id) :
    m.heap.Keeps count (Exec.step.after m).heap where
  functions := Machine.functions_step m ▸ List.prefix_rfl
  closures := isPrefix_closures_step m
  size := relates_step (R := fun a b => a.classes.size ≤ b.classes.size) (fun _ => Nat.le_refl _)
    (fun h₁ h₂ => Nat.le_trans h₁ h₂) fun _ _ _ _ hchange => hchange.keeps.2.1
  classAt := h
  instances := relates_step
    (R := fun a b => a.instanceClasses <+: b.instanceClasses)
    (fun _ => List.prefix_rfl) (fun h₁ h₂ => h₁.trans h₂) fun _ _ _ _ hchange => hchange.keeps.2.2

/-! ## While a class is declared -/

/-- Whether a class is being declared. -/
def Stage.declares : Stage → Bool
  | .plain | .bound | .own => false
  | .fresh _ | .chosen _ | .paired _ | .settled _ | .held _ | .adding _ _ => true

section

variable {Γ : Env} {S : Shape} {op : Opcode} {operands : List UInt8} {p q : Point} {st : Stage}

/-- Only the making of a class starts a declaration. -/
theorem Runs.declares (h : Runs Γ S op operands p q) (hq : q.stage.declares = true) :
    p.stage.declares = true ∨ op = .newClass := by
  cases h with
  | newClass => exact .inr rfl
  | defineClass | addMember | choose | pair | inherit => exact .inl rfl
  | @closure c id f captures captured X st =>
    refine .inl ?_
    cases st with
    | held => rfl
    | _ => cases hq
  | hold _ _ hst =>
    refine .inl ?_
    dsimp only
    rw [hst]
    split <;> rfl
  | _ => cases hq

/-- A class is being declared behind an instruction only if it was in front of it, or if the
instruction makes it. -/
theorem RunsAt.Comes.declares (h : Comes Γ S op operands p st) (hst : st.declares = true) :
    p.stage.declares = true ∨ op = .newClass := by
  cases h with
  | run hruns => exact hruns.declares hst
  | other _ => cases hst

end

/-- A machine runs, and the class that is being declared, if any, is none of the first ones. -/
def Machine.RunsBeyond (count : Nat) (ground : Ground) (m : Machine) : Prop :=
  ∃ W f rest bp X below st, W.toGround = ground ∧ RunsAt W m f rest bp X below st ∧
    count ≤ m.heap.classes.size ∧ (st.declares = true → count < m.heap.classes.size)

namespace Machine

variable {count : Nat} {ground : Ground} {m m' : Machine}

theorem RunsBeyond.running (h : m.RunsBeyond count ground) : m.Running ground := by
  obtain ⟨W, f, rest, bp, X, below, st, hground, h, -⟩ := h
  exact ⟨W, f, rest, bp, X, below, st, hground, h⟩

/-- The newest class is none of the first ones while it is being declared. -/
theorem classAt_declared {id other : ClassId} (hnewest : m.heap.Newest id)
    (hlt : count < m.heap.classes.size) (hother : other.index < count) (f : Class → Class) :
    ({ m.heap with classes := m.heap.classes.modify id.index f } : Heap).classAt other =
      m.heap.classAt other := by
  have hnewest : id.index + 1 = m.heap.classes.size := hnewest
  rw [Heap.classAt_modify (by omega), if_neg]
  rintro rfl
  omega

/-- **A step leaves the first classes alone**, whether it succeeds or fails. -/
theorem RunsBeyond.classAt (h : m.RunsBeyond count ground) {other : ClassId}
    (hother : other.index < count) :
    (Exec.step.after m).heap.classAt other = m.heap.classAt other := by
  obtain ⟨W, f, rest, bp, X, below, st, -, h, hle, hlt⟩ := h
  obtain ⟨op, -, halters⟩ := h.alters
  have hclassAt : ∀ {heap : Heap}, (Exec.step.after m).heap.classes = heap.classes →
      (Exec.step.after m).heap.classAt other = heap.classAt other := by
    intro heap hclasses
    rw [Heap.classAt, hclasses]
    rfl
  cases halters with
  | makes name _ hclasses =>
    rw [hclassAt hclasses]
    show ((m.heap.classes.push _).getD _ _ : Class) = m.heap.classes.getD _ _
    rw [Array.getD_eq_getD_getElem?, Array.getElem?_push_lt (by omega),
      Array.getD_eq_getD_getElem?, Array.getElem?_eq_getElem]
  | gives kind id closure values _ hst hnewest _ hclasses =>
    obtain ⟨derived, initializes, rfl⟩ := hst
    rw [hclassAt hclasses]
    cases kind <;> exact classAt_declared hnewest (hlt rfl) hother _
  | inherits id superclass values _ hst hblank _ _ hclasses =>
    obtain ⟨home, rfl⟩ := hst
    rw [hclassAt hclasses]
    exact classAt_declared hblank.newest (hlt rfl) hother _
  | refuses _ _ _ _ _ _ hclasses => exact hclassAt hclasses
  | leaves _ hclasses => exact hclassAt hclasses

theorem RunsBeyond.keeps (h : m.RunsBeyond count ground) :
    m.heap.Keeps count (Exec.step.after m).heap :=
  Exec.keeps_of_step fun _ => h.classAt

/-- **A run goes on beyond the first classes.** -/
theorem RunsBeyond.step (h : m.RunsBeyond count ground) (hstep : Exec.step m = .ok none m') :
    m'.RunsBeyond count ground := by
  have hkeeps := h.keeps
  rw [Exec.after_of_ok hstep] at hkeeps
  have hrunning := h.running
  obtain ⟨W, f, rest, bp, X, below, st, rfl, h, hle, hlt⟩ := h
  obtain ⟨i, hat, hleads⟩ := h.exists_instruction
  obtain ⟨st', hcomes, hensures⟩ := h.execute hat.operand (by rw [Instruction.size]; omega) hleads
  have hexecute : Exec.step m = Exec.execute i.op (m.moveTo (f.ip + 1)) :=
    Exec.bind_of_ok (Exec.readOpcode_eq h.calls hat.op)
  rw [Exec.Ensures, ← hexecute, hstep] at hensures
  obtain ⟨W', f', rest', bp', X', below', st'', hground, h', hst''⟩ := hensures
  refine ⟨W', f', rest', bp', X', below', st'', hground, h', Nat.le_trans hle hkeeps.size,
    fun hdeclares => ?_⟩
  obtain rfl : st'' = st' := by
    rcases hst'' with hst'' | ⟨hplain, -⟩
    · exact hst''
    · rw [hplain] at hdeclares
      cases hdeclares
  rcases hcomes.declares hdeclares with hbefore | hnew
  · exact Nat.lt_of_lt_of_le (hlt hbefore) hkeeps.size
  · -- The class that has just been made is a new one.
    have hsize := (h.alters_of_newClass (hnew ▸ Machine.opcode?_eq h.calls hat.op)).size_of_newClass
    rw [Exec.after_of_ok hstep] at hsize
    omega

theorem RunsBeyond.pause (h : m.RunsBeyond count ground) (pause : Pause) :
    (pause.apply m).RunsBeyond count ground := by
  obtain ⟨W, f, rest, bp, X, below, st, hground, h, hle, hlt⟩ := h
  exact ⟨W, f, rest, bp, X, below, st, hground, h.pause pause, hle, hlt⟩

/-! ## From some point on -/

/-- The machines that come after a machine, at its own time or later: in the same run, or in runs of
compiled sources that follow it, however these end. -/
inductive Later (m : Machine) : Machine → Prop
  | refl : Later m m
  | step {m₁ m₂ : Machine} {result : Option Value} (h : Later m m₁)
      (hstep : Exec.step m₁ = .ok result m₂) : Later m m₂
  | fail {m₁ m₂ : Machine} {fault : Fault} (h : Later m m₁) (hcalls : m₁.calls ≠ [])
      (hstep : Exec.step m₁ = .error fault m₂) : Later m (m₂.abandon fault)
  | pause {m₁ : Machine} (h : Later m m₁) (pause : Pause) : Later m (pause.apply m₁)
  | launch {m₁ m₂ : Machine} {source : String} {program : Program} (h : Later m m₁)
      (hcalls : m₁.calls = [])
      (hcompile : Program.compileAfter m₁.heap.functions source = .ok program)
      (hlaunch : (m₁.load program).launch program.main = .running m₂) : Later m m₂

/-- What is later than a later machine is later. -/
theorem Later.trans {m₁ m₂ : Machine} (h : m.Later m₁) (h' : m₁.Later m₂) : m.Later m₂ := by
  induction h' with
  | refl => exact h
  | step _ hstep ih => exact ih.step hstep
  | fail _ hcalls hstep ih => exact ih.fail hcalls hstep
  | pause _ pause ih => exact ih.pause pause
  | launch _ hcalls hcompile hlaunch ih => exact ih.launch hcalls hcompile hlaunch

/-- A machine is in the middle of a run, or rests between two of them, and the first classes are
finished. -/
inductive Beyond (count : Nat) (m : Machine) : Prop
  | running {ground : Ground} (h : m.RunsBeyond count ground)
  | resting (h : m.Rests) (hle : count ≤ m.heap.classes.size)

namespace Beyond

/-- The finished classes are there. -/
theorem size (h : m.Beyond count) : count ≤ m.heap.classes.size := by
  cases h with
  | running h =>
    obtain ⟨W, f, rest, bp, X, below, st, -, -, hle, -⟩ := h
    exact hle
  | resting _ hle => exact hle

/-- Where a call is in progress, a run is. -/
theorem exists_running (h : m.Beyond count) (hcalls : m.calls ≠ []) :
    ∃ ground, m.RunsBeyond count ground := by
  cases h with
  | running h => exact ⟨_, h⟩
  | resting h _ =>
    obtain ⟨blueprints, h⟩ := h
    exact absurd h.calls hcalls

/-- **A step leaves the finished classes as they are**. -/
theorem step {result : Option Value} (h : m.Beyond count)
    (hstep : Exec.step m = .ok result m') : m'.Beyond count ∧ m.heap.Keeps count m'.heap := by
  have hcalls : m.calls ≠ [] := by
    obtain ⟨_, _, hread, -⟩ := Exec.exists_of_bind_ok hstep
    obtain ⟨f, rest, hcalls, -⟩ := Exec.readOpcode_ok hread
    rw [hcalls]
    exact List.cons_ne_nil f rest
  obtain ⟨ground, hruns⟩ := h.exists_running hcalls
  have hkeeps := hruns.keeps
  rw [Exec.after_of_ok hstep] at hkeeps
  refine ⟨?_, hkeeps⟩
  cases result with
  | none => exact .running (hruns.step hstep)
  | some value =>
    have hcontinues := step_continues hruns.running
    rw [Exec.Ensures, hstep] at hcontinues
    have hquiet : m'.Quiet ground := hcontinues
    exact .resting ⟨_, hquiet.rests⟩ (Nat.le_trans h.size hkeeps.size)

/-- A run that fails leaves the finished classes as they are. -/
theorem fail {fault : Fault} (h : m.Beyond count) (hcalls : m.calls ≠ [])
    (hstep : Exec.step m = .error fault m') :
    (m'.abandon fault).Beyond count ∧ m.heap.Keeps count (m'.abandon fault).heap := by
  obtain ⟨ground, hruns⟩ := h.exists_running hcalls
  have hkeeps := hruns.keeps
  rw [Exec.after_of_error hstep] at hkeeps
  have hbreaks := step_continues hruns.running
  rw [Exec.Ensures, hstep] at hbreaks
  exact ⟨.resting (Breaks.rests ⟨hbreaks.1, hbreaks.2⟩) (Nat.le_trans h.size hkeeps.size), hkeeps⟩

theorem pause (h : m.Beyond count) (pause : Pause) : (pause.apply m).Beyond count := by
  cases h with
  | running h => exact .running (h.pause pause)
  | resting h hle => exact .resting (h.pause pause) hle

/-- **A run that is started between two runs** declares new classes only. -/
theorem launch {source : String} {program : Program} (h : m.Beyond count) (hcalls : m.calls = [])
    (hcompile : Program.compileAfter m.heap.functions source = .ok program)
    (hlaunch : (m.load program).launch program.main = .running m') :
    m'.Beyond count ∧ m.heap.Keeps count m'.heap := by
  cases h with
  | running h =>
    obtain ⟨W, f, rest, bp, X, below, st, -, h, -⟩ := h
    cases hcalls.symm.trans h.calls
  | resting h hle =>
    obtain ⟨blueprints, hrests⟩ := h
    obtain ⟨blueprints', hprefix, hready⟩ := hrests.launch_ready hcompile
    obtain ⟨⟨W, hground, hat⟩, -⟩ := hrests
    obtain ⟨-, -, -, hfunctions, -⟩ := compileAfter_fits hcompile hat.heap.table
    have hheap := (launch_running hlaunch).1
    -- Starting a run adds functions and the closure of the main one, and no class.
    have hkeeps : m.heap.Keeps count m'.heap := by
      rw [hheap]
      refine ⟨hfunctions, ?_, Nat.le_refl _, fun _ _ => rfl, List.prefix_rfl⟩
      exact (Array.toList_push ..).symm ▸ List.prefix_append _ _
    refine ⟨?_, hkeeps⟩
    have hlaunched : Exec.launch program.main (m.load program) = .ok () m' := by
      unfold Machine.launch at hlaunch
      split at hlaunch
      · next heq =>
        injection hlaunch with hm
        rw [heq, hm]
      · cases hlaunch
    rw [Exec.Ensures, hlaunched] at hready
    have hready : m'.Ready ⟨blueprints', m.heap.slots⟩ := hready
    obtain ⟨W', f, rest, bp, X, below, st, hground', hruns, hst⟩ := hready.runsOn
    refine .running ⟨W', f, rest, bp, X, below, st, hground', hruns, Nat.le_trans hle hkeeps.size,
      fun hdeclares => ?_⟩
    rcases hst with rfl | ⟨rfl, -⟩ <;> cases hdeclares

end Beyond

/-- **From some point on** the objects that there are stay, and the first classes keep their members
if none of them is being declared. -/
theorem Later.keeps (h : m.Later m') (hm : m.Beyond count) :
    m'.Beyond count ∧ m.heap.Keeps count m'.heap := by
  induction h with
  | refl => exact ⟨hm, .refl _ _⟩
  | step _ hstep ih =>
    obtain ⟨hbeyond, hkeeps⟩ := ih.1.step hstep
    exact ⟨hbeyond, ih.2.trans hkeeps⟩
  | fail _ hcalls hstep ih =>
    obtain ⟨hbeyond, hkeeps⟩ := ih.1.fail hcalls hstep
    exact ⟨hbeyond, ih.2.trans hkeeps⟩
  | pause _ pause ih => exact ⟨ih.1.pause pause, ih.2⟩
  | launch _ hcalls hcompile hlaunch ih =>
    obtain ⟨hbeyond, hkeeps⟩ := ih.1.launch hcalls hcompile hlaunch
    exact ⟨hbeyond, ih.2.trans hkeeps⟩

end Machine

end ScriptVM
