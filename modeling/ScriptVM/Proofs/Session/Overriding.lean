/-
# Own members and inherited ones

Reading or calling a name on an instance that has no such field looks into the computed properties
of its class first and into the methods then.  Both tables hold the inherited members, too.  So a
class hides the inherited members of a name if it declares a computed property of that name, or if
there is no computed property to hide: then what is found is a member that the nearest class of the
chain has declared.  A method does not hide an inherited computed property.

Main statement: `Machine.Built.overrides`, for every hierarchy that compiled class declarations
build, in any number of runs, however they end.
-/
import ScriptVM.Proofs.Machine.Hierarchy

namespace ScriptVM

/-! ## Reading and calling members -/

/-- Reads a member of the instance on top. -/
def MemberKind.read (kind : MemberKind) (closure : ClosureId) (id : InstanceId) : Exec Unit :=
  match kind with
  | .property => Exec.evaluate closure (.instanceRef id) .property
  | .method => Exec.replaceTop (.bound id closure)

/-- Calls a member of the instance below the arguments. -/
def MemberKind.call (kind : MemberKind) (closure : ClosureId) (id : InstanceId)
    (arguments : UInt8) : Exec Unit :=
  match kind with
  | .property => Exec.evaluate closure (.instanceRef id) (.invocation arguments)
  | .method => Exec.enter closure arguments .caller

/-- A name on an instance stands for a member: reading it reads the member, and calling it calls the
member. -/
structure Machine.Resolves (m : Machine) (id : InstanceId) (name : String) (kind : MemberKind)
    (closure : ClosureId) : Prop where
  /-- The name is read. -/
  read : Exec.readProperty id name m = kind.read closure id m
  /-- The name is called. -/
  invoke : ∀ arguments, m.stack.peek arguments.toNat = .ok (.instanceRef id) →
    Exec.invoke name arguments m = kind.call closure id arguments m

namespace Machine

variable {m : Machine} {id : InstanceId} {name : String} {closure : ClosureId}

/-- A computed property stands for its name, if no field does. -/
theorem resolves_property (hfield : m.heap.field? id name = none)
    (h : m.heap.member? .property (m.heap.instanceAt id).classId name = some closure) :
    m.Resolves id name .property closure := by
  have hproperty : (m.heap.classOf id).properties.get? name = some closure := h
  refine ⟨?_, fun arguments hpeek => ?_⟩
  · rw [Exec.readProperty, Exec.bind_of_ok (x := Exec.heap) rfl, hfield]
    simp only [hproperty]
    rfl
  · have hpeek' : Exec.peek arguments.toNat m = .ok (.instanceRef id) m := by
      show (Exec.ofStack (m.stack.peek arguments.toNat) : Exec Value) m = _
      rw [hpeek]
      rfl
    rw [Exec.invoke, Exec.bind_of_ok hpeek']
    dsimp only
    rw [Exec.bind_of_ok (x := Exec.heap) rfl, hfield]
    simp only [hproperty]
    rfl

/-- A method stands for its name, if no field and no computed property does. -/
theorem resolves_method (hfield : m.heap.field? id name = none)
    (hnone : m.heap.member? .property (m.heap.instanceAt id).classId name = none)
    (h : m.heap.member? .method (m.heap.instanceAt id).classId name = some closure) :
    m.Resolves id name .method closure := by
  have hproperty : (m.heap.classOf id).properties.get? name = none := hnone
  have hmethod : (m.heap.classOf id).methods.get? name = some closure := h
  refine ⟨?_, fun arguments hpeek => ?_⟩
  · rw [Exec.readProperty, Exec.bind_of_ok (x := Exec.heap) rfl, hfield]
    simp only [hproperty, hmethod]
    rfl
  · have hpeek' : Exec.peek arguments.toNat m = .ok (.instanceRef id) m := by
      show (Exec.ofStack (m.stack.peek arguments.toNat) : Exec Value) m = _
      rw [hpeek]
      rfl
    have hmethod' : (m.heap.classAt (m.heap.instanceAt id).classId).methods.get? name
      = some closure := h
    rw [Exec.invoke, Exec.bind_of_ok hpeek']
    dsimp only
    rw [Exec.bind_of_ok (x := Exec.heap) rfl, hfield]
    simp only [hproperty]
    rw [Exec.invokeFrom, Exec.bind_of_ok (x := Exec.heap) rfl]
    simp only [hmethod']
    rfl

end Machine

/-! ## The nearest class -/

namespace Hierarchy

variable {H : Hierarchy} {m : Machine} {id : InstanceId} {classId owner : ClassId} {name : String}
  {n : Nat}

instance (H : Hierarchy) (id : ClassId) (name : String) : Decidable (H.Declares id name) :=
  decidable_of_iff ((H.declared? .method id name).isSome ∨ (H.declared? .property id name).isSome)
    ⟨fun h => h.elim (fun h => ⟨.method, h⟩) (fun h => ⟨.property, h⟩), fun ⟨kind, h⟩ => by
      cases kind with
      | method => exact .inl h
      | property => exact .inr h⟩

/-- The members that a class has declared under a name hide all others of a chain: one of them is a
computed property, or there is no computed property in the chain. -/
def Prevails (H : Hierarchy) (id : ClassId) (name : String) (owner : ClassId) : Prop :=
  (H.declared? .property owner name).isSome ∨
    ∀ k c, H.chain? id k = some c → H.declared? .property c name = none

/-- What is declared in a form comes no earlier in a chain than what is declared in any form. -/
theorem Nearest.le {kind : MemberKind} {closure : ClosureId} {k : Nat} {c : ClassId}
    (h : H.Nearest classId name n owner) (hc : H.chain? classId k = some c)
    (hdeclared : H.declared? kind c name = some closure) : n ≤ k := by
  refine Nat.le_of_not_lt fun hlt => h.nearest k c hlt hc ⟨kind, ?_⟩
  rw [hdeclared]
  rfl

/-- **A name stands for a member of the nearest class** that has declared it, exactly if the members
of that class prevail. -/
theorem Describes.resolves (h : H.Describes m.heap) (hfield : m.heap.field? id name = none)
    (hnearest : H.Nearest (m.heap.instanceAt id).classId name n owner) :
    ∃ kind closure, m.Resolves id name kind closure ∧
      (H.declared? kind owner name = some closure ↔
        H.Prevails (m.heap.instanceAt id).classId name owner) := by
  cases hproperty : m.heap.member? .property (m.heap.instanceAt id).classId name with
  | some closure =>
    obtain ⟨k, c, hprovides⟩ := h.member?_eq_some_iff.1 hproperty
    refine ⟨.property, closure, Machine.resolves_property hfield hproperty, ?_⟩
    rcases Nat.lt_or_eq_of_le (hnearest.le hprovides.above hprovides.declared) with hlt | rfl
    · -- The computed property belongs to a class farther up.
      have hnone := hprovides.nearest n owner hlt hnearest.above
      rw [hnone]
      refine ⟨fun heq => (nomatch heq), fun hprevails => ?_⟩
      rcases hprevails with hsome | hall
      · rw [hnone] at hsome
        cases hsome
      · cases (hall k c hprovides.above).symm.trans hprovides.declared
    · obtain rfl : owner = c := Option.some.inj (hnearest.above.symm.trans hprovides.above)
      refine ⟨fun hdeclared => .inl ?_, fun _ => hprovides.declared⟩
      rw [hdeclared]
      rfl
  | none =>
    -- No class of the chain declares a computed property of the name, so a method is found.
    have hall : ∀ k c, H.chain? (m.heap.instanceAt id).classId k = some c →
        H.declared? .property c name = none := by
      intro k c hc
      refine Option.eq_none_iff_forall_ne_some.2 fun closure hdeclared => ?_
      obtain ⟨k', c', closure', -, hprovides⟩ := exists_provides hc hdeclared
      cases hproperty.symm.trans (h.member?_eq_some_iff.2 ⟨k', c', hprovides⟩)
    obtain ⟨kind, hsome⟩ := hnearest.declares
    obtain ⟨closure, hclosure⟩ := Option.isSome_iff_exists.1 hsome
    cases kind with
    | property => cases (hall n owner hnearest.above).symm.trans hclosure
    | method =>
      obtain ⟨k, c, closure', hle, hprovides⟩ := exists_provides hnearest.above hclosure
      obtain rfl : n = k :=
        Nat.le_antisymm (hnearest.le hprovides.above hprovides.declared) hle
      obtain rfl : owner = c := Option.some.inj (hnearest.above.symm.trans hprovides.above)
      have hmethod := h.member?_eq_some_iff.2 ⟨n, owner, hprovides⟩
      exact ⟨.method, closure', Machine.resolves_method hfield hproperty hmethod,
        fun _ => .inr hall, fun _ => hprovides.declared⟩

end Hierarchy

/-! ## Runs -/

/-- The machine that a run leaves behind, however it ended, with the hierarchy of its classes. -/
inductive Machine.Progress.Leaves (start : Machine.Progress) (H₀ : Hierarchy) :
    Machine → Hierarchy → Prop
  | returned {m m' : Machine} {H : Hierarchy} {value : Value} (h : start.Traced H₀ m H)
      (hstep : Exec.step m = .ok (some value) m') : Leaves start H₀ m' (H.after m)
  | failed {m m' : Machine} {H : Hierarchy} {fault : Fault} (h : start.Traced H₀ m H)
      (hstep : Exec.step m = .error fault m') : Leaves start H₀ (m'.abandon fault) (H.after m)
  | unstarted {m : Machine} {fault : Fault} (h : start = .failed fault m) :
      Leaves start H₀ (m.abandon fault) H₀

/-- A run that comes to its end leaves a hierarchy behind. -/
theorem Machine.Progress.Ends.exists_leaves {start : Machine.Progress} {last m : Machine}
    {outcome : Except Fault Value} (h : start.Ends last outcome m) (H₀ : Hierarchy) :
    ∃ H, start.Leaves H₀ m H := by
  cases h with
  | returned hvisits hstep =>
    obtain ⟨H, htraced⟩ := hvisits.exists_traced H₀
    exact ⟨_, .returned htraced hstep⟩
  | failed hvisits hstep =>
    obtain ⟨H, htraced⟩ := hvisits.exists_traced H₀
    exact ⟨_, .failed htraced hstep⟩
  | unstarted h => exact ⟨_, .unstarted h⟩

namespace Machine

variable {natives : List Native} {m m' : Machine} {H H' : Hierarchy} {source : String}
  {program : Program}

/-- The machines between runs of compiled sources, however the runs ended, with the hierarchies of
their classes. -/
inductive Built (natives : List Native) : Machine → Hierarchy → Prop
  | new (sink : Sink) (now : Float) : Built natives (Machine.new natives sink now) ⟨[]⟩
  | pause {m : Machine} {H : Hierarchy} (h : Built natives m H) (pause : Pause) :
      Built natives (pause.apply m) H
  | run {m m' : Machine} {H H' : Hierarchy} {source : String} {program : Program}
      (h : Built natives m H)
      (hcompile : Program.compileAfter m.heap.functions source = .ok program)
      (hleaves : ((m.load program).launch program.main).Leaves H m' H') : Built natives m' H'

theorem Rests.pause (h : m.Rests) (pause : Pause) : (pause.apply m).Rests := by
  obtain ⟨blueprints, ⟨W, hground, hat⟩, hcalls⟩ := h
  exact ⟨blueprints, ⟨W, hground, hat.heap, hat.globals, hat.values, hat.cells⟩, hcalls⟩

/-- A new machine has no classes. -/
theorem describes_new (sink : Sink) (now : Float) :
    (⟨[]⟩ : Hierarchy).Describes (Machine.new natives sink now).heap where
  length := rfl
  older := by
    intro id superclass habove
    cases habove
  tables id kind name := by
    cases kind <;> rfl

/-- The hierarchy is still right when a run has been started. -/
theorem describes_launch {function : FunctionId} (h : H.Describes m.heap)
    (hstart : m.launch function = .running m' ∨ ∃ fault, m.launch function = .failed fault m') :
    H.Describes m'.heap := by
  have hclasses := Exec.classes_launch function m
  refine h.of_classes ?_
  unfold Machine.launch at hstart
  cases hlaunch : Exec.launch function m with
  | ok _ m₁ =>
    rw [hlaunch] at hstart
    rw [Exec.after_of_ok hlaunch] at hclasses
    obtain rfl : m₁ = m' := by simpa using hstart
    exact hclasses
  | error fault m₁ =>
    rw [hlaunch] at hstart
    rw [Exec.after_of_error hlaunch] at hclasses
    obtain rfl : m₁ = m' := by simpa using hstart
    exact hclasses

/-- Along a run from a machine at rest the hierarchy stays right. -/
theorem Rests.describes (h : m.Rests) (hH : H.Describes m.heap)
    (hcompile : Program.compileAfter m.heap.functions source = .ok program)
    (htraced : ((m.load program).launch program.main).Traced H m' H') : H'.Describes m'.heap := by
  obtain ⟨blueprints, hsound⟩ := h.launch hcompile
  exact htraced.describes hsound fun _ hstart =>
    describes_launch (m := m.load program) (hH.of_classes rfl) (.inl hstart)

/-- **Between runs a machine is at rest and its hierarchy is right.** -/
theorem Built.describes (h : Built natives m H) : m.Rests ∧ H.Describes m.heap := by
  induction h with
  | new sink now => exact ⟨(Session.clean_new natives sink now).rests, describes_new sink now⟩
  | pause _ pause ih => exact ⟨ih.1.pause pause, ih.2⟩
  | @run m _ _ _ _ program _ hcompile hleaves ih =>
    obtain ⟨hrests, hH⟩ := ih
    obtain ⟨blueprints, hsound⟩ := hrests.launch hcompile
    cases hleaves with
    | returned htraced hstep =>
      have hafter := (hrests.describes hH hcompile htraced).after (hsound.visits htraced.visits)
      rw [Exec.after_of_ok hstep] at hafter
      exact ⟨⟨_, (hsound.returned (.returned htraced.visits hstep)).rests⟩, hafter⟩
    | failed htraced hstep =>
      have hafter := (hrests.describes hH hcompile htraced).after (hsound.visits htraced.visits)
      rw [Exec.after_of_error hstep] at hafter
      exact ⟨(hsound.failed (.failed htraced.visits hstep)).1.rests, hafter.of_classes rfl⟩
    | unstarted hstart =>
      have hstarted := describes_launch (m := m.load program) (hH.of_classes rfl) (.inr ⟨_, hstart⟩)
      exact ⟨(hsound.failed (.unstarted hstart)).1.rests, hstarted.of_classes rfl⟩

/-- Every run of a session leaves a hierarchy behind. -/
theorem Built.exists_of_run {s s' : Session} {pauses : List Pause} {outcome : Interpreted}
    (h : Built natives s.machine H) (hrun : s.run (.paced pauses) source = some (outcome, s')) :
    ∃ H', Built natives s'.machine H' := by
  rcases Session.run_cases hrun with ⟨rfl, -⟩ | ⟨last, result, ⟨program, hcompile, hends⟩, -⟩
  · exact ⟨H, h⟩
  · obtain ⟨H', hleaves⟩ := hends.exists_leaves H
    exact ⟨H', h.run hcompile hleaves⟩

/-- **Own members override inherited ones** if they prevail, and only then: on an instance without a
field of a name, the name stands for a member that the nearest class of the chain has declared under
it exactly if this class has declared a computed property, or no class of the chain has. -/
theorem Built.overrides {m₀ : Machine} {H₀ : Hierarchy} {id : InstanceId} {name : String} {n : Nat}
    {owner : ClassId} (h : Built natives m₀ H₀)
    (hcompile : Program.compileAfter m₀.heap.functions source = .ok program)
    (htraced : ((m₀.load program).launch program.main).Traced H₀ m H)
    (hfield : m.heap.field? id name = none)
    (hnearest : H.Nearest (m.heap.instanceAt id).classId name n owner) :
    ∃ kind closure, m.Resolves id name kind closure ∧
      (H.declared? kind owner name = some closure ↔
        H.Prevails (m.heap.instanceAt id).classId name owner) := by
  obtain ⟨hrests, hH⟩ := h.describes
  exact (hrests.describes hH hcompile htraced).resolves hfield hnearest

/-- The machine and the hierarchy that a run comes to after a number of steps. -/
def follow : Nat → Machine → Hierarchy → Option (Machine × Hierarchy)
  | 0, m, H => some (m, H)
  | steps + 1, m, H =>
    match Exec.step m with
    | .ok none m' => follow steps m' (H.after m)
    | _ => none

/-- What the run of a source on a new machine comes to after a number of steps. -/
def followed? (source : String) (steps : Nat) : Option (Machine × Hierarchy) :=
  match Program.compileAfter #[] source with
  | .ok program =>
    match ((Machine.new [] .reliable 0).load program).launch program.main with
    | .running m => follow steps m ⟨[]⟩
    | _ => none
  | .error _ => none

/-- A machine to which a run is followed is one to which it is traced. -/
theorem Progress.Traced.follow {start : Progress} {H₀ : Hierarchy} {steps : Nat}
    (h : start.Traced H₀ m H) (hfollow : follow steps m H = some (m', H')) :
    start.Traced H₀ m' H' := by
  induction steps generalizing m H with
  | zero =>
    obtain ⟨rfl, rfl⟩ := Prod.mk.inj (Option.some.inj hfollow)
    exact h
  | succ steps ih =>
    rw [Machine.follow] at hfollow
    split at hfollow
    · next hstep => exact ih (h.step hstep) hfollow
    · cases hfollow

/-- A source that is followed on a new machine compiles, and its run is traced. -/
theorem exists_traced_of_followed? {steps : Nat} (h : followed? source steps = some (m, H)) :
    ∃ program, Program.compileAfter #[] source = .ok program ∧
      (((Machine.new [] .reliable 0).load program).launch program.main).Traced ⟨[]⟩ m H := by
  unfold followed? at h
  split at h
  · next program hcompile =>
    split at h
    · next hlaunch => exact ⟨program, hcompile, (Progress.Traced.start hlaunch).follow h⟩
    · cases h
  · cases h

/-- A class with a method, one with a computed property of the same name, and a subclass of it. -/
def hidingSource : String :=
  "class A \x7b m() \x7b\x7d \x7d class B: A \x7b var m \x7b\x7d \x7d class C: B \x7b\x7d C().m;"

/-- A computed property hides an inherited method, for a subclass as well. -/
theorem Built.overrides_method : ∃ program m H kind closure,
    Program.compileAfter #[] hidingSource = .ok program ∧
    (((Machine.new [] .reliable 0).load program).launch program.main).Traced ⟨[]⟩ m H ∧
    m.heap.field? ⟨0⟩ "m" = none ∧ H.Nearest (m.heap.instanceAt ⟨0⟩).classId "m" 1 ⟨1⟩ ∧
    m.Resolves ⟨0⟩ "m" kind closure ∧ H.declared? kind ⟨1⟩ "m" = some closure := by
  have hchecked : (match followed? hidingSource 26 with
      | some (m, H) => decide ((m.heap.field? ⟨0⟩ "m").isNone ∧
          (m.heap.instanceAt ⟨0⟩).classId = ⟨2⟩ ∧ H.chain? ⟨2⟩ 1 = some ⟨1⟩ ∧
          ¬H.Declares ⟨2⟩ "m" ∧ (H.declared? .property ⟨1⟩ "m").isSome)
      | none => false) = true := by decide +kernel
  split at hchecked
  · next m H hfollowed =>
    obtain ⟨hnone, hclass, hchain, hfirst, hproperty⟩ := of_decide_eq_true hchecked
    have hfield := Option.isNone_iff_eq_none.1 hnone
    obtain ⟨program, hcompile, htraced⟩ := exists_traced_of_followed? hfollowed
    have hnearest : H.Nearest (m.heap.instanceAt ⟨0⟩).classId "m" 1 ⟨1⟩ := by
      refine ⟨hclass ▸ hchain, ⟨_, hproperty⟩, fun k c hk hc => ?_⟩
      obtain rfl : k = 0 := Nat.lt_one_iff.1 hk
      obtain rfl : (m.heap.instanceAt ⟨0⟩).classId = c := Option.some.inj hc
      rwa [hclass]
    obtain ⟨kind, closure, hresolves, hiff⟩ :=
      Built.overrides (.new .reliable 0) hcompile htraced hfield hnearest
    exact ⟨program, m, H, kind, closure, hcompile, htraced, hfield, hnearest, hresolves,
      hiff.2 (.inl hproperty)⟩
  · cases hchecked

/-- Whether the first instance of a program is of the second class, which declares a method, and
reading the property that is named like it does not give the method. -/
def hidesMethod (source : String) (steps : Nat) (name : String) : Bool :=
  match followed? source steps with
  | some (m, H) =>
    match H.declared? .method ⟨1⟩ name with
    | some method => decide ((m.heap.field? ⟨0⟩ name).isNone ∧
        (m.heap.instanceAt ⟨0⟩).classId = ⟨1⟩ ∧ (H.declared? .property ⟨1⟩ name).isNone ∧
        ((Exec.readProperty ⟨0⟩ name).after m).frames.size
          ≠ ((MemberKind.method.read method ⟨0⟩).after m).frames.size)
    | none => false
  | none => false

/-- **A method does not hide an inherited computed property**: the nearest class declares the name
as a method, but the name does not stand for it. -/
theorem inherited_property_overrides : ∃ program m H,
    Program.compileAfter #[]
      "class A \x7b var m \x7b\x7d \x7d class B: A \x7b m() \x7b\x7d \x7d B().m;"
      = .ok program ∧
    (((Machine.new [] .reliable 0).load program).launch program.main).Traced ⟨[]⟩ m H ∧
    m.heap.field? ⟨0⟩ "m" = none ∧ H.Nearest (m.heap.instanceAt ⟨0⟩).classId "m" 0 ⟨1⟩ ∧
    ¬∃ kind closure, m.Resolves ⟨0⟩ "m" kind closure ∧ H.declared? kind ⟨1⟩ "m" = some closure := by
  have hchecked : hidesMethod
      "class A \x7b var m \x7b\x7d \x7d class B: A \x7b m() \x7b\x7d \x7d B().m;" 18
        "m" = true := by
    decide +kernel
  unfold hidesMethod at hchecked
  split at hchecked
  · next m H hfollowed =>
    split at hchecked
    · next method hmethod =>
      obtain ⟨hfield, hclass, hproperty, hsizes⟩ := of_decide_eq_true hchecked
      obtain ⟨program, hcompile, htraced⟩ := exists_traced_of_followed? hfollowed
      refine ⟨program, m, H, hcompile, htraced, Option.isNone_iff_eq_none.1 hfield, ?_, ?_⟩
      · refine ⟨congrArg some hclass, ⟨.method, ?_⟩, fun k c hk => absurd hk (Nat.not_lt_zero k)⟩
        rw [hmethod]
        rfl
      · rintro ⟨kind, closure, hresolves, hdeclared⟩
        cases kind with
        | property =>
          rw [Option.isNone_iff_eq_none.1 hproperty] at hdeclared
          cases hdeclared
        | method =>
          obtain rfl : method = closure := Option.some.inj (hmethod.symm.trans hdeclared)
          refine hsizes ?_
          rw [Exec.after, hresolves.read, ← Exec.after]
    · cases hchecked
  · cases hchecked

end Machine

end ScriptVM
