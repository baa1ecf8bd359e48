/-
# Calling properties by name

An instruction that calls a property by its name looks the property up and calls what it finds,
without a value for the property on the stack in between.  `Machine.property` is the look-up that
the reading of properties uses: fields come before computed properties, and those before methods.

Main statements: calling a property of an instance does what reading it and calling the value would
do (`Machine.invoke_awaits`).  Calling one through a superclass does so only if it is no computed
property there (`Machine.invokeSuper_awaits`), for that instruction looks for methods only.
-/
import ScriptVM.Program
import ScriptVM.Proofs.Machine.Nested

namespace ScriptVM

/-- An item that is replaced and put back. -/
theorem Stack.replace_replace_self {α : Type} {capacity : Nat} {s : Stack α capacity} {i : Nat}
    {x y : α} (h : s.items[i]? = some x) : (s.replace i y).replace i x = s := by
  obtain ⟨hlt, -⟩ := Array.getElem?_eq_some_iff.1 h
  refine ext_items (Array.ext_getElem? fun j => ?_)
  show ((s.items.setIfInBounds i y).setIfInBounds i x)[j]? = s.items[j]?
  rw [Array.getElem?_setIfInBounds]
  split
  · next hj =>
    subst hj
    rw [if_pos (by simpa using hlt), h]
  · next hj => exact Array.getElem?_setIfInBounds_ne hj

/-! ## Looking properties up -/

namespace Machine

/-- The property of an instance after a number of steps: a field, or else the value of a computed
property, or else a method bound to the instance. -/
def property (m : Machine) (id : InstanceId) (name : String) (steps : Nat) : Progress :=
  match m.heap.field? id name with
  | some value => .finished value m
  | none =>
    match (m.heap.classOf id).properties.get? name with
    | some property => m.valueOf steps property (.instanceRef id)
    | none =>
      match (m.heap.classOf id).methods.get? name with
      | some method => .finished (.bound id method) m
      | none => .failed (.runtime (.undefinedProperty name)) m

/-- The property that an instance has through a superclass, after a number of steps: the value of a
computed property, or else a method bound to the instance. -/
def superProperty (m : Machine) (superclass : ClassId) (receiver : InstanceId) (name : String)
    (steps : Nat) : Progress :=
  match (m.heap.classAt superclass).properties.get? name with
  | some property => m.valueOf steps property (.instanceRef receiver)
  | none =>
    match (m.heap.classAt superclass).methods.get? name with
    | some method => .finished (.bound receiver method) m
    | none => .failed (.runtime (.undefinedProperty name)) m

theorem Alike.refl (m : Machine) : m.Alike m :=
  ⟨rfl, rfl, rfl, rfl, rfl, rfl, rfl⟩

namespace Progress

/-- A value that is there at once is used at once. -/
theorem Awaits.of_finished {start : Progress} {value : Value} {m : Machine}
    {use : Value → Exec (Option Value)} (h : start = .ofStep (use value m)) :
    start.Awaits (fun _ => .finished value m) use :=
  fun steps => ⟨0, Nat.zero_le steps, (advance_zero start).trans h⟩

/-- A search that fails at once is a run that fails. -/
theorem Awaits.of_failed {fault : Fault} {m : Machine} {use : Value → Exec (Option Value)} :
    (Progress.failed fault m).Awaits (fun _ => .failed fault m) use :=
  fun _ => ⟨m, rfl, .refl m⟩

end Progress

end Machine

/-! ## Instructions that name properties -/

namespace Exec

/-- The next instruction, with the name it is about. -/
def fetchNamed : Exec (Opcode × String) := do
  let op ← readOpcode
  return (op, ← readName)

/-- The next instruction, with the name it is about and the number of arguments. -/
def fetchCall : Exec (Opcode × String × UInt8) := do
  let (op, name) ← fetchNamed
  return (op, name, ← readByte)

variable {m₀ m : Machine} {op : Opcode} {name : String} {arguments : UInt8}

/-- An instruction about a name is done once the name has been read. -/
theorem step_of_fetchNamed {x : String → Exec Unit}
    (hop : execute op = proceed (readName >>= x))
    (h : fetchNamed m₀ = .ok (op, name) m) : step m₀ = proceed (x name) m := by
  obtain ⟨op', m₁, hread, h⟩ := exists_of_bind_ok h
  obtain ⟨name', m₂, hname, h⟩ := exists_of_bind_ok h
  obtain ⟨⟨rfl, rfl⟩, rfl⟩ : (op' = op ∧ name' = name) ∧ m₂ = m := by
    injection h with hpair hm
    exact ⟨Prod.mk.inj hpair, hm⟩
  rw [step, bind_of_ok hread, hop, proceed, bind_assoc, bind_of_ok hname]
  rfl

/-- An instruction that calls by a name is done once the name and the number of arguments have been
read. -/
theorem step_of_fetchCall {x : String → UInt8 → Exec Unit}
    (hop : execute op = proceed (readName >>= fun name => readByte >>= x name))
    (h : fetchCall m₀ = .ok (op, name, arguments) m) :
    step m₀ = proceed (x name arguments) m := by
  obtain ⟨⟨op', name'⟩, m₁, hread, h⟩ := exists_of_bind_ok h
  obtain ⟨arguments', m₂, hbyte, h⟩ := exists_of_bind_ok h
  obtain ⟨⟨rfl, rfl, rfl⟩, rfl⟩ : (op' = op ∧ name' = name ∧ arguments' = arguments) ∧ m₂ = m := by
    injection h with hpair hm
    simpa using And.intro hpair hm
  rw [step_of_fetchNamed hop hread, proceed, bind_assoc, bind_of_ok hbyte]
  rfl

theorem proceed_congr {x y : Exec Unit} {m' : Machine} (h : x m = y m') :
    proceed x m = proceed y m' := by
  simp only [proceed, Bind.bind, EStateM.bind, h]

/-- A value that is there is looked at without a change. -/
theorem peek_eq_of_stack {n : Nat} {value : Value} (h : m.stack.peek n = .ok value) :
    peek n m = .ok value m := by
  show (ofStack (m.stack.peek n) : Exec Value) m = _
  rw [h]
  rfl

/-! ## Methods -/

/-- The callee is replaced if there is one below the arguments. -/
theorem setCallee_eq {value : Value} (h : arguments.toNat < m.stack.size) :
    setCallee arguments value m = .ok ()
      { m with stack := m.stack.replace (m.stack.size - (arguments.toNat + 1)) value } := by
  have hslot : calleeSlot arguments m = .ok (m.stack.size - (arguments.toNat + 1)) m := by
    show (if arguments.toNat < m.stack.size then _ else _ : Exec Nat) m = _
    rw [if_pos h]
    rfl
  rw [setCallee, bind_of_ok hslot, setSlot, if_pos (by omega)]

/-- Storing a method bound to the instance below the arguments and calling it is calling the method,
for the instance is back in its place when the call starts. -/
theorem callInstead_bound {id : InstanceId} {method : ClosureId}
    (hpeek : m.stack.peek arguments.toNat = .ok (.instanceRef id)) :
    callInstead (.bound id method) arguments m = enter method arguments .caller m := by
  have hlt : arguments.toNat < m.stack.size := by
    unfold Stack.peek at hpeek
    split at hpeek
    · assumption
    · cases hpeek
  have hitem : m.stack.items[m.stack.size - (arguments.toNat + 1)]? = some (.instanceRef id) := by
    rw [Stack.peek, if_pos hlt, Stack.get] at hpeek
    split at hpeek
    · next h => rw [h, Except.ok.inj hpeek]
    · cases hpeek
  rw [callInstead, bind_of_ok (setCallee_eq hlt), callValue,
    bind_of_ok (setCallee_eq (by simpa using hlt))]
  rw [Stack.size_replace, Stack.replace_replace_self hitem]

end Exec

namespace Machine

variable {m₀ m m₁ m' : Machine} {name : String} {arguments : UInt8} {id receiver : InstanceId}
  {superclass : ClassId}

/-- Reading a property waits for what the look-up gives, and puts it in the place of the
instance. -/
theorem getProperty_awaits (hfetch : Exec.fetchNamed m₀ = .ok (.getProperty, name) m)
    (hpeek : m.stack.peek 0 = .ok (.instanceRef id)) :
    (Progress.ofStep (Exec.step m₀)).Awaits (m.property id name)
      fun value => Exec.proceed (Exec.replaceTop value) := by
  have hstep : Exec.step m₀ = Exec.proceed (Exec.readProperty id name) m := by
    rw [Exec.step_of_fetchNamed rfl hfetch]
    exact Exec.proceed_congr (Exec.bind_of_ok (Exec.peek_eq_of_stack hpeek))
  have hread : Exec.readProperty id name m = (match m.heap.field? id name with
      | some value => Exec.replaceTop value
      | none =>
        match (m.heap.classOf id).properties.get? name with
        | some property => Exec.evaluate property (.instanceRef id) .property
        | none =>
          match (m.heap.classOf id).methods.get? name with
          | some method => Exec.replaceTop (.bound id method)
          | none => Exec.raise (.undefinedProperty name) : Exec Unit) m := rfl
  rw [hstep, Exec.proceed_congr hread]
  unfold property
  split
  · exact .of_finished rfl
  · split
    · exact evaluate_awaits m _ _ rfl
    · split
      · exact .of_finished rfl
      · exact .of_failed

/-- Calling a method waits for no value: it is as if a bound method were there at once. -/
theorem invokeFrom_awaits {classId : ClassId}
    (hpeek : m.stack.peek arguments.toNat = .ok (.instanceRef id)) :
    (Progress.ofStep (Exec.proceed (Exec.invokeFrom classId name arguments) m)).Awaits
      (fun _ => match (m.heap.classAt classId).methods.get? name with
        | some method => .finished (.bound id method) m
        | none => .failed (.runtime (.undefinedProperty name)) m)
      fun value => Exec.proceed (Exec.callInstead value arguments) := by
  have hfrom : Exec.invokeFrom classId name arguments m =
      (match (m.heap.classAt classId).methods.get? name with
      | some method => Exec.enter method arguments .caller
      | none => Exec.raise (.undefinedProperty name) : Exec Unit) m := rfl
  rw [Exec.proceed_congr hfrom]
  split
  · refine .of_finished ?_
    rw [Exec.proceed_congr (Exec.callInstead_bound hpeek)]
  · exact .of_failed

/-- **Calling a property of an instance** does what reading it, storing it in the place of the
instance and calling it would do. -/
theorem invoke_awaits (hfetch : Exec.fetchCall m₀ = .ok (.invoke, name, arguments) m)
    (hpeek : m.stack.peek arguments.toNat = .ok (.instanceRef id)) :
    (Progress.ofStep (Exec.step m₀)).Awaits (m.property id name)
      fun value => Exec.proceed (Exec.callInstead value arguments) := by
  have hstep : Exec.step m₀ = Exec.proceed (Exec.invoke name arguments) m :=
    Exec.step_of_fetchCall rfl hfetch
  have hinvoke : Exec.invoke name arguments m = (match m.heap.field? id name with
      | some field => Exec.callInstead field arguments
      | none =>
        match (m.heap.classOf id).properties.get? name with
        | some property => Exec.evaluate property (.instanceRef id) (.invocation arguments)
        | none => Exec.invokeFrom (m.heap.instanceAt id).classId name arguments : Exec Unit) m :=
    Exec.bind_of_ok (Exec.peek_eq_of_stack hpeek)
  rw [hstep, Exec.proceed_congr hinvoke]
  unfold property
  split
  · exact .of_finished rfl
  · split
    · exact evaluate_awaits m _ _ rfl
    · exact invokeFrom_awaits hpeek

/-- The machine that a new one comes to when it runs a source for a number of steps. -/
def reached? (source : String) (steps : Nat) : Option Machine :=
  match Program.compile source with
  | .ok program =>
    match ({ Machine.new [] .reliable 0 with heap := program.heap }.launch program.main).advance
        steps with
    | .running m => some m
    | _ => none
  | .error _ => none

/-- Whether a program comes to a call of a property of the instance on top. -/
def invokes (source : String) (steps : Nat) (property : String) : Bool :=
  match reached? source steps with
  | some m₀ =>
    match Exec.fetchCall m₀ with
    | .ok (op, name, arguments) m =>
      match m.stack.peek 0 with
      | .ok (.instanceRef _) => decide (op = .invoke ∧ name = property ∧ arguments = 0)
      | _ => false
    | _ => false
  | none => false

/-- The value of a computed property is called. -/
theorem invoke_awaits_computed : ∃ m₀ m id, Exec.fetchCall m₀ = .ok (.invoke, "f", 0) m ∧
    m.stack.peek 0 = .ok (.instanceRef id) ∧
    (Progress.ofStep (Exec.step m₀)).Awaits (m.property id "f")
      fun value => Exec.proceed (Exec.callInstead value 0) := by
  have hchecked : invokes "class A \x7b var f \x7b return 1; \x7d \x7d A().f();" 8 "f" = true := by
    decide +kernel
  unfold invokes at hchecked
  split at hchecked
  · next m₀ _ =>
    split at hchecked
    · next hfetch =>
      split at hchecked
      · next hpeek =>
        obtain ⟨rfl, rfl, rfl⟩ := of_decide_eq_true hchecked
        exact ⟨m₀, _, _, hfetch, hpeek, invoke_awaits hfetch hpeek⟩
      · exact Bool.noConfusion hchecked
    · exact Bool.noConfusion hchecked
  · exact Bool.noConfusion hchecked

/-! ## Superclasses -/

/-- Reading a property through a superclass waits for what the look-up there gives, and pushes
it. -/
theorem getSuper_awaits (hfetch : Exec.fetchNamed m₀ = .ok (.getSuper, name) m)
    (hclass : Exec.popClass m = .ok superclass m₁)
    (hreceiver : Exec.pop m₁ = .ok (.instanceRef receiver) m') :
    (Progress.ofStep (Exec.step m₀)).Awaits (m'.superProperty superclass receiver name)
      fun value => Exec.proceed (Exec.push value) := by
  have hstep : Exec.step m₀ =
    Exec.proceed (Exec.readSuperProperty superclass receiver name) m' := by
    rw [Exec.step_of_fetchNamed rfl hfetch]
    rw [Exec.proceed, bind_assoc, Exec.bind_of_ok hclass, bind_assoc, Exec.bind_of_ok hreceiver]
    rfl
  have hread : Exec.readSuperProperty superclass receiver name m' =
      (match (m'.heap.classAt superclass).properties.get? name with
      | some property => Exec.evaluate property (.instanceRef receiver) .superProperty
      | none =>
        match (m'.heap.classAt superclass).methods.get? name with
        | some method => Exec.push (.bound receiver method)
        | none => Exec.raise (.undefinedProperty name) : Exec Unit) m' := rfl
  rw [hstep, Exec.proceed_congr hread]
  unfold superProperty
  split
  · exact evaluate_awaits m' _ _ rfl
  · split
    · exact .of_finished rfl
    · exact .of_failed

/-- **Calling a property through a superclass** does what reading it there, storing it in the place
of the instance and calling it would do, if it is no computed property of the superclass. -/
theorem invokeSuper_awaits (hfetch : Exec.fetchCall m₀ = .ok (.invokeSuper, name, arguments) m)
    (hclass : Exec.popClass m = .ok superclass m₁)
    (hpeek : m₁.stack.peek arguments.toNat = .ok (.instanceRef receiver))
    (hproperty : (m₁.heap.classAt superclass).properties.get? name = none) :
    (Progress.ofStep (Exec.step m₀)).Awaits (m₁.superProperty superclass receiver name)
      fun value => Exec.proceed (Exec.callInstead value arguments) := by
  have hstep : Exec.step m₀ = Exec.proceed (Exec.invokeFrom superclass name arguments) m₁ := by
    rw [Exec.step_of_fetchCall (x := fun name arguments => do
      Exec.invokeFrom (← Exec.popClass) name arguments) rfl hfetch]
    rw [Exec.proceed, bind_assoc, Exec.bind_of_ok hclass]
    rfl
  rw [hstep]
  unfold superProperty
  rw [hproperty]
  exact invokeFrom_awaits hpeek

/-- Whether a program comes to a call of a property through a superclass, on the instance on top,
with a check of the machines before and behind the superclass. -/
def invokesSuper (source : String) (steps : Nat) (property : String)
    (check : Machine → Machine → ClassId → InstanceId → Bool) : Bool :=
  match reached? source steps with
  | some m₀ =>
    match Exec.fetchCall m₀ with
    | .ok (op, name, arguments) m =>
      match Exec.popClass m with
      | .ok superclass m₁ =>
        match m₁.stack.peek 0 with
        | .ok (.instanceRef receiver) => decide (op = .invokeSuper ∧ name = property ∧
            arguments = 0 ∧ check m₀ m₁ superclass receiver)
        | _ => false
      | _ => false
    | _ => false
  | none => false

/-- A program that invokes through a superclass comes to that instruction, with the class and the
receiver on the stack. -/
theorem exists_of_invokesSuper {source property : String} {steps : Nat}
    {check : Machine → Machine → ClassId → InstanceId → Bool}
    (h : invokesSuper source steps property check = true) : ∃ m₀ m superclass m₁ receiver,
      Exec.fetchCall m₀ = .ok (.invokeSuper, property, 0) m ∧
      Exec.popClass m = .ok superclass m₁ ∧ m₁.stack.peek 0 = .ok (.instanceRef receiver) ∧
      check m₀ m₁ superclass receiver = true := by
  unfold invokesSuper at h
  split at h
  · split at h
    · next hfetch =>
      split at h
      · next hclass =>
        split at h
        · next hpeek =>
          obtain ⟨rfl, rfl, rfl, hcheck⟩ := of_decide_eq_true h
          exact ⟨_, _, _, _, _, hfetch, hclass, hpeek, hcheck⟩
        · cases h
      · cases h
    · cases h
  · cases h

/-- A method of the superclass is called. -/
theorem invokeSuper_awaits_method : ∃ m₀ m superclass m₁ receiver,
    Exec.fetchCall m₀ = .ok (.invokeSuper, "make", 0) m ∧ Exec.popClass m = .ok superclass m₁ ∧
    m₁.stack.peek 0 = .ok (.instanceRef receiver) ∧
    (m₁.heap.classAt superclass).properties.get? "make" = none ∧
    (Progress.ofStep (Exec.step m₀)).Awaits (m₁.superProperty superclass receiver "make")
      fun value => Exec.proceed (Exec.callInstead value 0) := by
  have hchecked : invokesSuper "class A \x7b make() \x7b \x7d \x7d
        class B: A \x7b test() \x7b super.make(); \x7d \x7d B().test();" 21 "make"
      (fun _ m₁ superclass _ => ((m₁.heap.classAt superclass).properties.get? "make").isNone)
      = true := by
    decide +kernel
  obtain ⟨m₀, m, superclass, m₁, receiver, hfetch, hclass, hpeek, hnone⟩ :=
    exists_of_invokesSuper hchecked
  have hnone := Option.isNone_iff_eq_none.1 hnone
  exact ⟨m₀, m, superclass, m₁, receiver, hfetch, hclass, hpeek, hnone,
    invokeSuper_awaits hfetch hclass hpeek hnone⟩

/-- Whether a run has ended with a fault. -/
def Progress.hasFailed : Progress → Bool
  | .failed _ _ => true
  | _ => false

/-- A run that has failed goes on no further. -/
theorem Progress.advance_of_failed {p : Progress} (h : p.hasFailed = true) (steps : Nat) :
    p.advance steps = p := by
  cases p with
  | failed fault m => rfl
  | running m => exact Bool.noConfusion h
  | finished value m => exact Bool.noConfusion h

/-- Whether a run has ended with a value that can be called. -/
def Progress.isCallable (p : Progress) (arguments : UInt8) : Bool :=
  match p with
  | .finished value m =>
    decide (¬(Progress.ofStep (Exec.proceed (Exec.callInstead value arguments) m)).hasFailed)
  | _ => false

/-- **A computed property of the superclass is not called**: its value is a function that could be
called, but the run fails. -/
theorem invokeSuper_misses_computed : ∃ m₀ m superclass m₁ receiver,
    Exec.fetchCall m₀ = .ok (.invokeSuper, "make", 0) m ∧ Exec.popClass m = .ok superclass m₁ ∧
    m₁.stack.peek 0 = .ok (.instanceRef receiver) ∧
    ¬(Progress.ofStep (Exec.step m₀)).Awaits (m₁.superProperty superclass receiver "make")
      fun value => Exec.proceed (Exec.callInstead value 0) := by
  have hchecked : invokesSuper "class A \x7b var make \x7b func g() \x7b \x7d return g; \x7d \x7d
        class B: A \x7b test() \x7b super.make(); \x7d \x7d B().test();" 21 "make"
      (fun m₀ m₁ superclass receiver => (Progress.ofStep (Exec.step m₀)).hasFailed &&
        (m₁.superProperty superclass receiver "make" 3).isCallable 0) = true := by
    decide +kernel
  obtain ⟨m₀, m, superclass, m₁, receiver, hfetch, hclass, hpeek, hcheck⟩ :=
    exists_of_invokesSuper hchecked
  obtain ⟨hfailed, hcallable⟩ := Bool.and_eq_true_iff.1 hcheck
  refine ⟨m₀, m, superclass, m₁, receiver, hfetch, hclass, hpeek, fun hawaits => ?_⟩
  have hend := hawaits 3
  unfold Progress.isCallable at hcallable
  split at hcallable
  · next hvalue =>
    rw [hvalue] at hend
    obtain ⟨k, -, hk⟩ := hend
    rw [Progress.advance_of_failed hfailed] at hk
    exact of_decide_eq_true hcallable (hk ▸ hfailed)
  · cases hcallable

end Machine

end ScriptVM
