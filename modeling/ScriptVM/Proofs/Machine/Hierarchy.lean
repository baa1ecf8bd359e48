/-
# Class hierarchies

What a run has declared about its classes, seen from outside: for each class its superclass, and the
members that its own declaration has given it.  A `Hierarchy` follows a run instruction by
instruction and never looks into a class (`Hierarchy.after`).

A machine has no chains of superclasses.  A class takes the tables of its superclass over when it
inherits, once and before it is given members of its own, and the superclass does not change any
more.  So the tables still say what the chain would say (`Hierarchy.Describes`): a table binds a
name to what the nearest class of the chain has declared in it
(`Hierarchy.Describes.member?_eq_some_iff`).

Main statements: `Hierarchy.Describes.after`, `Machine.Progress.Traced.describes`.
-/
import ScriptVM.Proofs.Machine.Changes
import ScriptVM.Proofs.Machine.Ledger

namespace ScriptVM

attribute [ext] ClassId

/-! ## Members -/

/-- The two kinds of members. -/
inductive MemberKind where
  /-- A method. -/
  | method
  /-- A computed property. -/
  | property
deriving DecidableEq, Repr

/-- The instruction that adds a member. -/
def MemberKind.opcode : MemberKind → Opcode
  | .method => .method
  | .property => .computedProperty

/-- The members of a kind that a class has, the inherited ones included. -/
def Class.table (c : Class) : MemberKind → Bindings ClosureId
  | .method => c.methods
  | .property => c.properties

/-- A member as it is declared. -/
structure DeclaredMember where
  /-- Its kind. -/
  kind : MemberKind
  /-- Its name. -/
  name : String
  /-- Its closure. -/
  closure : ClosureId
deriving DecidableEq, Repr

/-- What the declaration of a class has said so far. -/
structure ClassRecord where
  /-- The superclass. -/
  superclass : Option ClassId
  /-- The members, the last one first. -/
  members : List DeclaredMember

namespace ClassRecord

/-- The last member of a kind and a name. -/
def member? (record : ClassRecord) (kind : MemberKind) (name : String) : Option ClosureId :=
  (record.members.find? fun x => x.kind = kind ∧ x.name = name).map (·.closure)

/-- The record with one more member. -/
def declare (record : ClassRecord) (x : DeclaredMember) : ClassRecord :=
  { record with members := x :: record.members }

/-- A member is found under its kind and name, and hides no other. -/
theorem member?_declare (record : ClassRecord) (x : DeclaredMember) (kind : MemberKind)
    (name : String) :
    (record.declare x).member? kind name
      = if x.kind = kind ∧ x.name = name then some x.closure else record.member? kind name := by
  unfold member? declare
  rw [List.find?_cons]
  by_cases h : x.kind = kind ∧ x.name = name
  · rw [if_pos h]
    simp [h]
  · rw [if_neg h]
    simp [h]

end ClassRecord

/-! ## Hierarchies -/

/-- The records of all classes, in the order in which the classes were made. -/
structure Hierarchy where
  /-- The records. -/
  records : List ClassRecord

namespace Hierarchy

/-- The record of a class. -/
def record (H : Hierarchy) (id : ClassId) : ClassRecord :=
  H.records.getD id.index ⟨none, []⟩

/-- The last member of a kind and a name that a class has declared itself. -/
def declared? (H : Hierarchy) (kind : MemberKind) (id : ClassId) (name : String) :
    Option ClosureId :=
  (H.record id).member? kind name

/-- The superclass of a class; there is nothing above a class that is its own superclass. -/
def above? (H : Hierarchy) (id : ClassId) : Option ClassId :=
  if (H.record id).superclass = some id then none else (H.record id).superclass

/-- The classes of a chain: a class, its superclass, the superclass of that, and so on. -/
def chain? (H : Hierarchy) (id : ClassId) : Nat → Option ClassId
  | 0 => some id
  | n + 1 => (H.chain? id n).bind H.above?

/-- A chain goes on above the class that it starts with. -/
theorem chain?_succ (H : Hierarchy) (id : ClassId) (n : Nat) :
    H.chain? id (n + 1) = (H.above? id).bind fun superclass => H.chain? superclass n := by
  induction n with
  | zero =>
    cases h : H.above? id with
    | none => simpa [chain?] using h
    | some superclass => simpa [chain?] using h
  | succ n ih =>
    rw [chain?, ih]
    cases H.above? id <;> rfl

/-- A class has declared a name, in one form or the other. -/
def Declares (H : Hierarchy) (id : ClassId) (name : String) : Prop :=
  ∃ kind, (H.declared? kind id name).isSome

/-- The class that comes first in a chain of those that have declared a name. -/
structure Nearest (H : Hierarchy) (id : ClassId) (name : String) (n : Nat) (owner : ClassId) :
    Prop where
  /-- It is in the chain. -/
  above : H.chain? id n = some owner
  /-- It has declared the name. -/
  declares : H.Declares owner name
  /-- No class before it has. -/
  nearest : ∀ k c, k < n → H.chain? id k = some c → ¬H.Declares c name

/-- The class that comes first in a chain of those that have declared a name in one form. -/
structure Provides (H : Hierarchy) (kind : MemberKind) (id : ClassId) (name : String) (n : Nat)
    (owner : ClassId) (closure : ClosureId) : Prop where
  /-- It is in the chain. -/
  above : H.chain? id n = some owner
  /-- It has declared the name. -/
  declared : H.declared? kind owner name = some closure
  /-- No class before it has. -/
  nearest : ∀ k c, k < n → H.chain? id k = some c → H.declared? kind c name = none

/-- If a class of a chain has declared a name in one form, there is a first one that has. -/
theorem exists_provides {H : Hierarchy} {kind : MemberKind} {id owner : ClassId} {name : String}
    {n : Nat} {closure : ClosureId} (habove : H.chain? id n = some owner)
    (hdeclared : H.declared? kind owner name = some closure) :
    ∃ k c closure', k ≤ n ∧ H.Provides kind id name k c closure' := by
  induction n using Nat.strongRecOn generalizing owner closure with
  | _ n ih =>
    by_cases hfirst : ∀ k c, k < n → H.chain? id k = some c → H.declared? kind c name = none
    · exact ⟨n, owner, closure, Nat.le_refl n, habove, hdeclared, hfirst⟩
    · push Not at hfirst
      obtain ⟨k, c, hk, hc, hsome⟩ := hfirst
      obtain ⟨closure', hclosure'⟩ := Option.ne_none_iff_exists'.1 hsome
      obtain ⟨k', c', closure'', hle, hprovides⟩ := ih k hk hc hclosure'
      exact ⟨k', c', closure'', by omega, hprovides⟩

/-! ### What instructions declare -/

/-- A change of one record. -/
def modify (H : Hierarchy) (id : ClassId) (f : ClassRecord → ClassRecord) : Hierarchy :=
  ⟨H.records.modify id.index f⟩

/-- A class is made. -/
def make (H : Hierarchy) : Hierarchy :=
  ⟨H.records ++ [⟨none, []⟩]⟩

/-- A class inherits from another one. -/
def extend (H : Hierarchy) (id superclass : ClassId) : Hierarchy :=
  H.modify id fun record => { record with superclass := some superclass }

/-- A class is given a member. -/
def declare (H : Hierarchy) (id : ClassId) (x : DeclaredMember) : Hierarchy :=
  H.modify id (·.declare x)

end Hierarchy

/-- The name that the next instruction refers to. -/
def Machine.nameOperand (m : Machine) : String :=
  match m.frames.top? with
  | some f =>
    match (m.heap.functionOf f.closure).chunk.constants[m.operand 0]? with
    | some (.string name) => name
    | _ => ""
  | none => ""

/-- The hierarchy behind the next instruction. -/
def Hierarchy.after (H : Hierarchy) (m : Machine) : Hierarchy :=
  match m.opcode?, m.values with
  | some .newClass, _ => H.make
  | some .inherit, .classRef id :: .classRef superclass :: _ => H.extend id superclass
  | some .method, .closureRef closure :: .classRef id :: _ =>
    H.declare id ⟨.method, m.nameOperand, closure⟩
  | some .computedProperty, .closureRef closure :: .classRef id :: _ =>
    H.declare id ⟨.property, m.nameOperand, closure⟩
  | _, _ => H

/-- The machines that a run comes to, with the hierarchies of their classes. -/
inductive Machine.Progress.Traced (start : Machine.Progress) (H₀ : Hierarchy) :
    Machine → Hierarchy → Prop
  | start {m : Machine} (h : start = .running m) : Traced start H₀ m H₀
  | step {m m' : Machine} {H : Hierarchy} (h : Traced start H₀ m H)
      (hstep : Exec.step m = .ok none m') : Traced start H₀ m' (H.after m)
  | pause {m : Machine} {H : Hierarchy} (h : Traced start H₀ m H) (pause : Pause) :
      Traced start H₀ (pause.apply m) H

namespace Machine.Progress

variable {start : Machine.Progress} {H₀ H : Hierarchy} {m : Machine}

/-- A machine to which a run is traced is one that the run visits. -/
theorem Traced.visits (h : start.Traced H₀ m H) : start.Visits m := by
  induction h with
  | start h => exact .start h
  | step _ hstep ih => exact ih.step hstep
  | pause _ pause ih => exact ih.pause pause

/-- Every machine that a run comes to has a hierarchy. -/
theorem Visits.exists_traced (h : start.Visits m) (H₀ : Hierarchy) : ∃ H, start.Traced H₀ m H := by
  induction h with
  | start h => exact ⟨_, .start h⟩
  | step _ hstep ih =>
    obtain ⟨H, hH⟩ := ih
    exact ⟨_, hH.step hstep⟩
  | pause _ pause ih =>
    obtain ⟨H, hH⟩ := ih
    exact ⟨H, hH.pause pause⟩

end Machine.Progress

/-! ## Tables -/

namespace Heap

variable {heap : Heap} {id other superclass : ClassId} {kind : MemberKind} {name : String}

/-- What a class binds a name to. -/
def member? (heap : Heap) (kind : MemberKind) (id : ClassId) (name : String) : Option ClosureId :=
  ((heap.classAt id).table kind).get? name

/-- A class is given a member. -/
def declare (heap : Heap) (id : ClassId) (x : DeclaredMember) : Heap :=
  match x.kind with
  | .method => heap.defineMethod id x.name x.closure
  | .property => heap.defineProperty id x.name x.closure

/-- The table of a class is changed, and those of the others are not. -/
theorem classAt_modify {f : Class → Class} (h : id.index < heap.classes.size) :
    ({ heap with classes := heap.classes.modify id.index f } : Heap).classAt other
      = if other = id then f (heap.classAt id) else heap.classAt other := by
  simp only [classAt, Array.getD_eq_getD_getElem?, Array.getElem?_modify, ClassId.ext_iff]
  by_cases hother : id.index = other.index
  · simp [← hother, h]
  · simp [hother, Ne.symm hother]

theorem member?_of_classes {heap' : Heap} (h : heap'.classes = heap.classes) :
    heap'.member? kind id name = heap.member? kind id name := by
  rw [member?, classAt, h]
  rfl

/-- A new class binds no name. -/
theorem member?_newClass (className : String) :
    (heap.newClass className).2.member? kind id name = heap.member? kind id name := by
  simp only [member?, newClass, classAt, Array.getD_eq_getD_getElem?, Array.getElem?_push]
  split
  · next h =>
    rw [h, Array.getElem?_eq_none (Nat.le_refl _)]
    cases kind <;> rfl
  · rfl

/-- A declared member is found in its class, in place of the one of its kind and name. -/
theorem member?_declare (h : id.index < heap.classes.size) (x : DeclaredMember) :
    (heap.declare id x).member? kind other name
      = if other = id ∧ x.kind = kind ∧ x.name = name then some x.closure
        else heap.member? kind other name := by
  obtain ⟨kind', name', closure⟩ := x
  by_cases hother : other = id
  · subst hother
    cases kind' <;> cases kind <;>
      simp [member?, declare, defineMethod, defineProperty, classAt_modify h, Class.table, eq_comm]
  · cases kind' <;>
      simp [member?, declare, defineMethod, defineProperty, classAt_modify h, hother]

/-- A class that inherits has the members of the superclass first, and else its own. -/
theorem member?_inherit (h : id.index < heap.classes.size) :
    (heap.inherit id superclass).member? kind other name
      = if other = id then (heap.member? kind superclass name).or (heap.member? kind id name)
        else heap.member? kind other name := by
  by_cases hother : other = id
  · subst hother
    cases kind <;> simp [member?, inherit, classAt_modify h, Class.table]
  · simp [member?, inherit, classAt_modify h, hother]

/-- A new class binds no names. -/
theorem Blank.member? (h : heap.Blank id) : heap.member? kind id name = none := by
  cases kind with
  | method =>
    show (heap.classAt id).methods.get? name = none
    rw [h.methods]
    rfl
  | property =>
    show (heap.classAt id).properties.get? name = none
    rw [h.properties]
    rfl

end Heap

/-! ## Hierarchies that are right -/

/-- The tables of the classes are what a hierarchy says. -/
structure Hierarchy.Describes (H : Hierarchy) (heap : Heap) : Prop where
  /-- Every class has a record. -/
  length : H.records.length = heap.classes.size
  /-- A class is newer than the one above it. -/
  older : ∀ {id superclass}, H.above? id = some superclass → superclass.index < id.index
  /-- A class binds a name to what it has declared itself, or else to what the class above does. -/
  tables : ∀ id kind name, heap.member? kind id name
    = (H.declared? kind id name).or ((H.above? id).bind (heap.member? kind · name))

namespace Hierarchy

variable {H : Hierarchy} {heap heap' : Heap} {id other superclass : ClassId} {kind : MemberKind}
  {name : String} {closure : ClosureId} {f : ClassRecord → ClassRecord}

/-- One record is changed, and the others are not. -/
theorem record_modify (h : id.index < H.records.length) :
    (H.modify id f).record other = if other = id then f (H.record id) else H.record other := by
  simp only [record, modify, List.getD_eq_getElem?_getD, List.getElem?_modify, ClassId.ext_iff]
  by_cases hother : id.index = other.index
  · simp [← hother, h]
  · simp [hother, Ne.symm hother]

/-- Making a class leaves the records: that of the new class is empty, as if it were not there. -/
theorem record_make (H : Hierarchy) (id : ClassId) : H.make.record id = H.record id := by
  simp only [record, make, List.getD_eq_getElem?_getD, List.getElem?_append,
    List.getElem?_singleton]
  split
  · rfl
  · next h =>
    rw [List.getElem?_eq_none (Nat.not_lt.1 h)]
    split <;> rfl

/-- Inheriting declares no members. -/
theorem declared?_extend (h : id.index < H.records.length) :
    (H.extend id superclass).declared? kind other name = H.declared? kind other name := by
  rw [declared?, extend, record_modify h]
  split
  · next heq => rw [heq]; rfl
  · rfl

/-- A class that inherits has its superclass above it, unless that is the class itself. -/
theorem above?_extend (h : id.index < H.records.length) :
    (H.extend id superclass).above? other
      = if other = id then if superclass = id then none else some superclass
        else H.above? other := by
  rw [above?, extend, record_modify h]
  split
  · next heq => simp [heq]
  · rfl

/-- A declared member is the last of its kind and name. -/
theorem declared?_declare (h : id.index < H.records.length) (x : DeclaredMember) :
    (H.declare id x).declared? kind other name
      = if other = id ∧ x.kind = kind ∧ x.name = name then some x.closure
        else H.declared? kind other name := by
  rw [declared?, declare, record_modify h]
  by_cases hother : other = id
  · rw [if_pos hother, ClassRecord.member?_declare, hother]
    simp [declared?]
  · rw [if_neg hother, if_neg (fun hx => hother hx.1)]
    rfl

/-- Declaring a member leaves the superclasses as they are. -/
theorem above?_declare (h : id.index < H.records.length) (x : DeclaredMember) :
    (H.declare id x).above? other = H.above? other := by
  rw [above?, declare, record_modify h]
  split
  · next heq => rw [heq]; rfl
  · rfl

end Hierarchy

namespace Hierarchy.Describes

variable {H : Hierarchy} {heap heap' : Heap} {id other superclass : ClassId} {kind : MemberKind}
  {name : String} {closure : ClosureId}

/-- A hierarchy describes any objects with the same classes. -/
theorem of_classes (h : H.Describes heap) (hclasses : heap'.classes = heap.classes) :
    H.Describes heap' where
  length := hclasses ▸ h.length
  older := h.older
  tables id kind name := by
    simp only [Heap.member?_of_classes hclasses]
    exact h.tables id kind name

/-- The newest class is above no other one. -/
theorem above?_ne (h : H.Describes heap) (hnewest : heap.Newest id) : H.above? other ≠ some id := by
  intro habove
  have holder := h.older habove
  have hrecord : H.record other = ⟨none, []⟩ := by
    rw [record, List.getD_eq_getElem?_getD, List.getElem?_eq_none]
    · rfl
    · rw [h.length, ← hnewest]
      omega
  rw [above?, hrecord] at habove
  cases habove

/-- A hierarchy with a new class describes the objects with it. -/
theorem make (h : H.Describes heap) (className : String) :
    H.make.Describes (heap.newClass className).2 where
  length := by
    simp [Hierarchy.make, Heap.newClass, h.length]
  older := by
    intro id superclass habove
    rw [above?, record_make] at habove
    exact h.older habove
  tables id kind name := by
    simp only [Heap.member?_newClass, declared?, above?, record_make]
    exact h.tables id kind name

/-- **A hierarchy with a new member describes the objects with it**, if the class is the newest
one. -/
theorem declare (h : H.Describes heap) (hnewest : heap.Newest id) (x : DeclaredMember) :
    (H.declare id x).Describes (heap.declare id x) where
  length := by
    rw [Hierarchy.declare, modify, List.length_modify, h.length]
    cases hkind : x.kind <;> simp [Heap.declare, hkind, Heap.defineMethod, Heap.defineProperty]
  older := by
    intro other superclass habove
    rw [above?_declare (by rw [h.length, ← hnewest]; omega)] at habove
    exact h.older habove
  tables other kind name := by
    have hlt : id.index < heap.classes.size := by
      rw [← hnewest]
      omega
    rw [Heap.member?_declare hlt, declared?_declare (h.length ▸ hlt),
      above?_declare (h.length ▸ hlt)]
    split
    · rfl
    · rw [h.tables]
      cases habove : H.above? other with
      | none => rfl
      | some superclass =>
        have hne : superclass ≠ id := fun heq => h.above?_ne hnewest (heq ▸ habove)
        simp [Heap.member?_declare hlt, hne]

/-- **A hierarchy with a superclass describes the objects behind it**, if the class has no members
yet. -/
theorem extend (h : H.Describes heap) (hblank : heap.Blank id)
    (hsuperclass : superclass.index < heap.classes.size) :
    (H.extend id superclass).Describes (heap.inherit id superclass) := by
  have hlt : id.index < heap.classes.size := by
    rw [← hblank.newest]
    omega
  have hlt' : id.index < H.records.length := h.length ▸ hlt
  refine ⟨?_, ?_, ?_⟩
  · rw [Hierarchy.extend, modify, List.length_modify, h.length]
    simp [Heap.inherit]
  · intro other above habove
    rw [above?_extend hlt'] at habove
    split at habove
    · next hother =>
      split at habove
      · cases habove
      · next hne =>
        obtain rfl := Option.some.inj habove
        have hnewest : id.index + 1 = heap.classes.size := hblank.newest
        have hindex : superclass.index ≠ id.index := fun heq => hne (ClassId.ext heq)
        rw [hother]
        omega
    · exact h.older habove
  · intro other kind name
    rw [Heap.member?_inherit hlt, declared?_extend hlt', above?_extend hlt']
    split
    · next hother =>
      have hnone : H.declared? kind id name = none := by
        have htable := h.tables id kind name
        rw [hblank.member?] at htable
        exact (Option.or_eq_none_iff.1 htable.symm).1
      rw [hother, hnone, hblank.member?, Option.or_none]
      -- A class that inherits from itself would take over its own empty tables.
      by_cases hself : superclass = id
      · simp [hself, hblank.member?]
      · simp [hself, Heap.member?_inherit hlt]
    · rw [h.tables]
      cases habove : H.above? other with
      | none => rfl
      | some above =>
        have hne : above ≠ id := fun heq => h.above?_ne hblank.newest (heq ▸ habove)
        simp [Heap.member?_inherit hlt, hne]

/-- **A table binds a name** to what the nearest class of the chain has declared in it. -/
theorem member?_eq_some_iff (h : H.Describes heap) :
    heap.member? kind id name = some closure ↔
      ∃ n owner, H.Provides kind id name n owner closure := by
  -- By induction on the class: its superclass is an older one, and the table of the superclass
  -- counts where the class declares nothing itself.
  induction hi : id.index using Nat.strongRecOn generalizing id with
  | _ i ih =>
    subst hi
    have htable := h.tables id kind name
    cases hown : H.declared? kind id name with
    | some own =>
      rw [htable, hown, Option.some_or, Option.some.injEq]
      constructor
      · rintro rfl
        exact ⟨0, id, rfl, hown, fun k c hk => absurd hk (Nat.not_lt_zero k)⟩
      · rintro ⟨n, owner, hprovides⟩
        cases n with
        | zero =>
          obtain rfl : id = owner := Option.some.inj hprovides.above
          exact Option.some.inj (hown.symm.trans hprovides.declared)
        | succ n =>
          have hnone := hprovides.nearest 0 id (Nat.succ_pos n) rfl
          rw [hown] at hnone
          cases hnone
    | none =>
      rw [htable, hown, Option.none_or, Option.bind_eq_some_iff]
      constructor
      · rintro ⟨superclass, habove, hsuperclass⟩
        obtain ⟨n, owner, hprovides⟩ := (ih _ (h.older habove) rfl).1 hsuperclass
        refine ⟨n + 1, owner, ?_, hprovides.declared, ?_⟩
        · rw [chain?_succ, habove]
          exact hprovides.above
        · intro k c hk hc
          cases k with
          | zero => exact Option.some.inj hc ▸ hown
          | succ k =>
            rw [chain?_succ, habove] at hc
            exact hprovides.nearest k c (Nat.lt_of_succ_lt_succ hk) hc
      · rintro ⟨n, owner, hprovides⟩
        cases n with
        | zero =>
          obtain rfl : id = owner := Option.some.inj hprovides.above
          cases hown.symm.trans hprovides.declared
        | succ n =>
          have hchain := hprovides.above
          rw [chain?_succ, Option.bind_eq_some_iff] at hchain
          obtain ⟨superclass, habove, hchain⟩ := hchain
          refine ⟨superclass, habove, (ih _ (h.older habove) rfl).2
            ⟨n, owner, hchain, hprovides.declared, fun k c hk hc => ?_⟩⟩
          refine hprovides.nearest (k + 1) c (Nat.succ_lt_succ hk) ?_
          rw [chain?_succ, habove]
          exact hc

end Hierarchy.Describes

/-! ## Steps -/

namespace Exec

variable {m : Machine}

theorem classes_after {α : Type} (x : Exec α) [Changes .closure x] (m : Machine) :
    (x.after m).heap.classes = m.heap.classes :=
  Machine.Becomes.keeps Heap.classes (Changes.becomes m : m.Becomes .closure (x.after m))
    fun hchange => hchange.classes rfl

/-- A call changes no classes. -/
theorem classes_pushFrame (f : Frame) (m : Machine) :
    ((pushFrame f).after m).heap.classes = m.heap.classes := by
  by_cases h : m.frames.size < frameLimit
  · rw [after_of_ok (by rw [pushFrame, dif_pos h])]
  · rw [after_of_error (by rw [pushFrame, dif_neg h])]

/-- What changes no classes in both parts changes none at all. -/
theorem classes_bind {α β : Type} {x : Exec α} {f : α → Exec β} [Changes .closure x]
    (hf : ∀ a m, ((f a).after m).heap.classes = m.heap.classes) (m : Machine) :
    ((x >>= f).after m).heap.classes = m.heap.classes := by
  have hx := classes_after x m
  cases hrun : x m with
  | ok a m' =>
    rw [after_of_ok hrun] at hx
    rw [after_bind_of_ok hrun, hf, hx]
  | error e m' =>
    rw [after_of_error hrun] at hx
    rw [after_bind_of_error hrun, hx]

/-- The start of a run leaves the classes as they are. -/
theorem classes_launch (function : FunctionId) (m : Machine) :
    ((launch function).after m).heap.classes = m.heap.classes := by
  refine classes_bind (fun id => classes_bind fun _ => ?_) m
  unfold enter
  refine classes_bind fun heap => ?_
  dsimp only
  split
  · exact classes_bind fun _ => classes_bind fun slots => classes_pushFrame _
  · exact classes_bind fun slots => classes_pushFrame _

/-- A class is made, whether or not there is room for it on the stack. -/
theorem classes_makeClass {m₁ : Machine} {name : String} (hname : readName m = .ok name m₁) :
    (makeClass.after m).heap.classes = (m₁.heap.newClass name).2.classes := by
  rw [makeClass, after_bind_of_ok hname]
  have hmade : allocate (·.newClass name) m₁ = .ok ⟨m₁.heap.classes.size⟩
      { m₁ with heap := (m₁.heap.newClass name).2 } := rfl
  rw [after_bind_of_ok hmade]
  exact classes_after (push _) _

/-- The class below a closure is given a member. -/
theorem classes_addMember {m₁ : Machine} {name : String} {id : ClassId} {member : ClosureId}
    {values : List Value} (define : Heap → ClassId → String → ClosureId → Heap)
    (hname : readName m = .ok name m₁)
    (hvalues : m₁.values = .closureRef member :: .classRef id :: values) :
    ((addMember define).after m).heap.classes = (define m₁.heap id name member).classes := by
  rw [addMember, after_bind_of_ok hname, after_bind_of_ok (classMember_eq hvalues)]
  have hdefined : modifyHeap (define · id name member) m₁
      = .ok () { m₁ with heap := define m₁.heap id name member } := rfl
  dsimp only
  rw [after_bind_of_ok hdefined]
  exact classes_after (pop >>= fun _ => pure ()) _

/-- The class on top inherits from the value below it, if that is a class. -/
theorem classes_inherit {id : ClassId} {v : Value} {values : List Value}
    (hvalues : m.values = .classRef id :: v :: values) :
    (inherit.after m).heap.classes = match v with
      | .classRef superclass => (m.heap.inherit id superclass).classes
      | _ => m.heap.classes := by
  rw [inherit, after_bind_of_ok (peek_eq (congrArg (·[0]?) hvalues))]
  dsimp only
  rw [after_bind_of_ok (peek_eq (congrArg (·[1]?) hvalues))]
  cases v with
  | classRef superclass =>
    have hinherits : modifyHeap (·.inherit id superclass) m
        = .ok () { m with heap := m.heap.inherit id superclass } := rfl
    dsimp only
    rw [after_bind_of_ok hinherits]
    exact classes_after (pop >>= fun _ => pure ()) _
  | _ => rfl

end Exec

/-! ### Where members are given -/

section

variable {Γ : Env} {S X : Shape} {points : Nat → Option Point} {next : Nat} {op : Opcode}
  {operands : List UInt8} {st : Stage}

/-- A class is made under a name. -/
theorem Leads.of_newClass (h : Leads Γ S points next .newClass operands ⟨X, st⟩) :
    ∃ c name, operands = [c] ∧ Γ.Names c name := by
  cases h with
  | run hruns _ =>
    cases hruns with
    | push hop => exact absurd hop (by decide)
    | unary hop => exact absurd hop (by decide)
    | binary hop => exact absurd hop (by decide)
    | addMember hop _ _ => exact absurd hop (by decide)
    | read hreads _ => cases hreads
    | write hwrites => cases hwrites
    | choose hreads _ _ => cases hreads
    | pair hreads _ => cases hreads
    | hold hreads _ _ => cases hreads
    | newClass hname => exact ⟨_, _, rfl, hname⟩

/-- Only the class that is being declared is given members. -/
theorem Leads.of_member (h : Leads Γ S points next op operands ⟨X, st⟩)
    (hop : op ∈ Opcode.members) :
    (∃ derived initializes, st = .adding derived initializes) ∧ ∃ c name, operands = [c] ∧
      Γ.Names c name := by
  have hne : ∀ {ops : List Opcode}, op ∈ ops → (∀ o ∈ ops, o ∉ Opcode.members) → False :=
    fun hmem hnone => hnone op hmem hop
  cases h with
  | run hruns _ =>
    cases hruns with
    | push hpush => exact (hne hpush (by decide)).elim
    | unary hunary => exact (hne hunary (by decide)).elim
    | binary hbinary => exact (hne hbinary (by decide)).elim
    | addMember _ hname _ => exact ⟨⟨_, _, rfl⟩, _, _, rfl, hname⟩
    | read hreads _ => cases hreads <;> exact absurd hop (by decide)
    | write hwrites => cases hwrites <;> exact absurd hop (by decide)
    | choose hreads _ _ => cases hreads <;> exact absurd hop (by decide)
    | pair hreads _ => cases hreads <;> exact absurd hop (by decide)
    | hold hreads _ _ => cases hreads <;> exact absurd hop (by decide)
    | _ => exact absurd hop (by decide)
  | _ => exact absurd hop (by decide)

end

/-- The name that an instruction refers to is a constant of the function that runs. -/
theorem Machine.nameOperand_eq {m : Machine} {f : Frame} {rest : List Frame} {c : UInt8}
    {name : String} (h : m.calls = f :: rest)
    (hbyte : (Exec.chunkOf m f).code[f.ip + 1]? = some c)
    (hname : (Exec.chunkOf m f).constants[c.toNat]? = some (.string name)) :
    m.nameOperand = name := by
  have hoperand : m.operand 0 = c.toNat := operand_eq h hbyte
  have hconstant : (m.heap.functionOf f.closure).chunk.constants[c.toNat]? = some (.string name) :=
    hname
  simp only [nameOperand, top?_of_calls h, hoperand, hconstant]

/-- An instruction that adds a member. -/
theorem MemberKind.execute_opcode (kind : MemberKind) : Exec.execute kind.opcode
    = Exec.proceed (Exec.addMember fun heap id name closure =>
      heap.declare id ⟨kind, name, closure⟩) := by
  cases kind <;> rfl

theorem MemberKind.opcode_mem (kind : MemberKind) : kind.opcode ∈ Opcode.members := by
  cases kind <;> decide

/-- A member is added to the class below it on the stack. -/
theorem Hierarchy.after_of_member {H : Hierarchy} {m : Machine} {kind : MemberKind}
    {closure : ClosureId} {id : ClassId} {values : List Value} (hop : m.opcode? = some kind.opcode)
    (hvalues : m.values = .closureRef closure :: .classRef id :: values) :
    H.after m = H.declare id ⟨kind, m.nameOperand, closure⟩ := by
  rw [after, hop, hvalues]
  cases kind <;> rfl

theorem Hierarchy.after_of_declares {H : Hierarchy} {m : Machine} {op : Opcode}
    (hop : m.opcode? = some op) (h : op.declares = false) : H.after m = H := by
  rw [after, hop]
  cases op <;> first | rfl | cases h

/-! ### What a step does to the classes -/

/-- How a step changes the classes, by its instruction. Members and a superclass are given to the
newest class only, while it is being declared. -/
inductive Machine.Alters (m : Machine) (st : Stage) (op : Opcode) (classes : Array Class) : Prop
  /-- A class is made. -/
  | makes (name : String) (hop : op = .newClass)
      (hclasses : classes = (m.heap.newClass name).2.classes)
  /-- The class below a closure is given a member. -/
  | gives (kind : MemberKind) (id : ClassId) (closure : ClosureId) (values : List Value)
      (hop : op = kind.opcode) (hst : ∃ derived initializes, st = .adding derived initializes)
      (hnewest : m.heap.Newest id)
      (hvalues : m.values = .closureRef closure :: .classRef id :: values)
      (hclasses : classes = (m.heap.declare id ⟨kind, m.nameOperand, closure⟩).classes)
  /-- The class on top inherits from the class below it. -/
  | inherits (id superclass : ClassId) (values : List Value) (hop : op = .inherit)
      (hst : ∃ home, st = .paired home) (hblank : m.heap.Blank id)
      (hsuperclass : superclass.index < m.heap.classes.size)
      (hvalues : m.values = .classRef id :: .classRef superclass :: values)
      (hclasses : classes = (m.heap.inherit id superclass).classes)
  /-- The class on top cannot inherit from the value below it. -/
  | refuses (id : ClassId) (v : Value) (values : List Value) (hop : op = .inherit)
      (hvalues : m.values = .classRef id :: v :: values)
      (hv : ∀ superclass, v ≠ .classRef superclass) (hclasses : classes = m.heap.classes)
  /-- The instruction does not declare anything. -/
  | leaves (hop : op.declares = false) (hclasses : classes = m.heap.classes)

section

variable {W : World} {m : Machine} {f : Frame} {rest : List Frame} {bp : Blueprint}
  {X below : Shape} {st : Stage} {op : Opcode}

theorem RunsAt.alters_of_newClass (h : RunsAt W m f rest bp X below st)
    (hop : m.opcode? = some .newClass) :
    m.Alters st .newClass (Exec.step.after m).heap.classes := by
  obtain ⟨op, operands, next, hopcode, hbytes, hstep, hleads⟩ := h.next
  obtain rfl := Option.some.inj (hopcode.symm.trans hop)
  obtain ⟨c, name, rfl, hname⟩ := hleads.of_newClass
  have hread := Exec.readName_eq h.calls (hbytes (k := 0) rfl) hname
  rw [Exec.after_step_of_execute hstep (x := Exec.makeClass) rfl, Exec.classes_makeClass hread]
  exact .makes name rfl rfl

theorem RunsAt.alters_of_member (h : RunsAt W m f rest bp X below st) (kind : MemberKind)
    (hop : m.opcode? = some kind.opcode) :
    m.Alters st kind.opcode (Exec.step.after m).heap.classes := by
  obtain ⟨op, operands, next, hopcode, hbytes, hstep, hleads⟩ := h.next
  obtain rfl := Option.some.inj (hopcode.symm.trans hop)
  obtain ⟨⟨derived, initializes, rfl⟩, c, name, rfl, hname⟩ := hleads.of_member kind.opcode_mem
  obtain ⟨closure, id, values, hnewest, hvalues, -⟩ := h.stage
  have hread := Exec.readName_eq h.calls (hbytes (k := 0) rfl) hname
  have hclasses := Exec.classes_addMember
    (fun heap id name closure => heap.declare id ⟨kind, name, closure⟩) hread hvalues
  rw [← Exec.after_step_of_execute hstep kind.execute_opcode,
    ← Machine.nameOperand_eq h.calls (hbytes (k := 0) rfl) hname] at hclasses
  exact .gives kind id closure values rfl ⟨derived, initializes, rfl⟩ hnewest hvalues hclasses

theorem RunsAt.alters_of_inherit (h : RunsAt W m f rest bp X below st)
    (hop : m.opcode? = some .inherit) :
    m.Alters st .inherit (Exec.step.after m).heap.classes := by
  obtain ⟨op, operands, next, hopcode, -, hstep, hleads⟩ := h.next
  obtain rfl := Option.some.inj (hopcode.symm.trans hop)
  obtain ⟨home, rfl⟩ := hleads.stage_of_inherit
  obtain ⟨id, v, values, hblank, hvalues, -, -⟩ := h.stage
  have hclasses := Exec.classes_inherit (m := m.moveTo (f.ip + 1)) hvalues
  rw [← Exec.after_step_of_execute hstep (x := Exec.inherit) rfl] at hclasses
  cases v with
  | classRef superclass =>
    have hslot : slot? m.values (values.length) = some (.classRef superclass) := by
      rw [hvalues]
      exact slot?_append_of_some (X := [_]) (slot?_cons_length _ _)
    have hsuperclass := h.typed.lt_classes hslot
    rw [← h.typed.heap.size_classes] at hsuperclass
    exact .inherits id superclass values rfl ⟨home, rfl⟩ hblank hsuperclass hvalues hclasses
  | _ => exact .refuses id _ values rfl hvalues nofun hclasses

/-- There is one class more behind the instruction that makes one. -/
theorem Machine.Alters.size_of_newClass {classes : Array Class}
    (h : m.Alters st .newClass classes) : classes.size = m.heap.classes.size + 1 := by
  cases h with
  | makes name _ hclasses =>
    rw [hclasses]
    exact Array.size_push _
  | gives kind _ _ _ hop => cases kind <;> cases hop
  | inherits _ _ _ hop => cases hop
  | refuses _ _ _ hop => cases hop
  | leaves hop => cases hop

/-- **Every step changes the classes in one of these ways**, whether it succeeds or fails. -/
theorem RunsAt.alters (h : RunsAt W m f rest bp X below st) :
    ∃ op, m.opcode? = some op ∧ m.Alters st op (Exec.step.after m).heap.classes := by
  obtain ⟨op, operands, next, hop, -⟩ := h.next
  refine ⟨op, hop, ?_⟩
  by_cases hdeclares : op.declares = true
  · cases op with
    | newClass => exact h.alters_of_newClass hop
    | method => exact h.alters_of_member .method hop
    | computedProperty => exact h.alters_of_member .property hop
    | inherit => exact h.alters_of_inherit hop
    | _ => cases hdeclares
  · refine .leaves (eq_false_of_ne_true hdeclares) (Exec.classes_step fun op' m' hread => ?_)
    have hrunning : m.Running W.toGround := ⟨W, f, rest, bp, X, below, st, rfl, h⟩
    obtain rfl : op = op' := Option.some.inj (hop.symm.trans (hrunning.opcode?_of_readOpcode hread))
    exact eq_false_of_ne_true hdeclares

end

/-- **A step takes a right hierarchy to a right one**, whatever the instruction and whether it
succeeds or fails. -/
theorem Hierarchy.Describes.after {H : Hierarchy} {m : Machine} {ground : Ground}
    (hH : H.Describes m.heap) (h : m.Running ground) :
    (H.after m).Describes (Exec.step.after m).heap := by
  obtain ⟨W, f, rest, bp, X, below, st, -, h⟩ := h
  obtain ⟨op, hop, halters⟩ := h.alters
  cases halters with
  | makes name hnew hclasses =>
    rw [Hierarchy.after, hop, hnew]
    exact (hH.make name).of_classes hclasses
  | gives kind id closure values hkind _ hnewest hvalues hclasses =>
    rw [Hierarchy.after_of_member (hop.trans (congrArg some hkind)) hvalues]
    exact (hH.declare hnewest _).of_classes hclasses
  | inherits id superclass values hinherit _ hblank hsuperclass hvalues hclasses =>
    rw [Hierarchy.after, hop, hinherit, hvalues]
    exact (hH.extend hblank hsuperclass).of_classes hclasses
  | refuses id v values hinherit hvalues hv hclasses =>
    rw [Hierarchy.after, hop, hinherit, hvalues]
    cases v with
    | classRef superclass => exact absurd rfl (hv superclass)
    | _ => exact hH.of_classes hclasses
  | leaves hdeclares hclasses =>
    rw [Hierarchy.after_of_declares hop hdeclares]
    exact hH.of_classes hclasses

/-- **The hierarchy of a run is right** wherever the run comes, if it was right at its start. -/
theorem Machine.Progress.Traced.describes {start : Machine.Progress} {H₀ H : Hierarchy}
    {m : Machine} {ground : Ground} (h : start.Traced H₀ m H) (hsound : start.Sound ground)
    (hstart : ∀ m, start = .running m → H₀.Describes m.heap) : H.Describes m.heap := by
  induction h with
  | start h => exact hstart _ h
  | step htraced hstep ih =>
    have hafter := ih.after (hsound.visits htraced.visits)
    rwa [Exec.after_of_ok hstep] at hafter
  | pause _ pause ih => exact ih

end ScriptVM
