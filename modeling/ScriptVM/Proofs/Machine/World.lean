/-
# What the objects of a heap are used for

A `World` says of each closure which function it runs, of each cell what its variable is used for,
and how many classes there are.  Objects are never taken away, so worlds only grow (`World.Le`), and
what a value refers to stays what it is.

A run that fails may leave cells open although their slots are gone.  Later runs then read and write
whatever is in these slots, so nothing is known about what values are used for: such a world is not
`Trusted`.

`Value.Ok` is what holds of every value a program can get hold of, `Value.HasKind` of one in a slot
for a use, and `Heap.Ok` of a heap whose objects are as a world says.
-/
import ScriptVM.Machine.Cells
import ScriptVM.Proofs.Program.Verified

namespace ScriptVM

/-! ## Worlds -/

/-- What stays as it is while a run goes on. -/
structure Ground where
  /-- The functions. -/
  blueprints : List Blueprint
  /-- The slots that the cells of earlier runs stand for, of those that are still open. -/
  stale : List (Option Nat)

/-- What the objects of a heap are used for. -/
structure World extends Ground where
  /-- The function of each closure. -/
  closures : List Blueprint
  /-- What the variable of each cell is used for. -/
  cells : List SlotKind
  /-- The number of classes. -/
  classes : Nat

/-- No cell of an earlier run is open. -/
def Trusted (stale : List (Option Nat)) : Prop :=
  ∀ slot ∈ stale, slot = none

namespace World

/-- The world without objects. -/
def empty : World := ⟨⟨[], []⟩, [], [], 0⟩

/-- A world has all that another has. -/
structure Le (W V : World) : Prop where
  /-- The functions stay. -/
  blueprints : W.blueprints <+: V.blueprints
  /-- The closures stay. -/
  closures : W.closures <+: V.closures
  /-- The cells stay. -/
  cells : W.cells <+: V.cells
  /-- The classes stay. -/
  classes : W.classes ≤ V.classes
  /-- A world with fewer open cells of earlier runs is trusted more. -/
  trusted : Trusted V.stale → Trusted W.stale

theorem Le.refl (W : World) : W.Le W :=
  ⟨List.prefix_rfl, List.prefix_rfl, List.prefix_rfl, Nat.le_refl _, id⟩

theorem Le.trans {W V U : World} (h₁ : W.Le V) (h₂ : V.Le U) : W.Le U :=
  ⟨h₁.blueprints.trans h₂.blueprints, h₁.closures.trans h₂.closures, h₁.cells.trans h₂.cells,
    Nat.le_trans h₁.classes h₂.classes, h₁.trusted ∘ h₂.trusted⟩

/-- A closure is there. -/
def Knows (W : World) (id : ClosureId) : Prop :=
  ∃ bp, W.closures[id.index]? = some bp

theorem Knows.mono {W V : World} {id : ClosureId} (h : W.Knows id) (hle : W.Le V) : V.Knows id :=
  h.imp fun _ hbp => getElem?_of_isPrefix hle.closures hbp

/-- A closure is that of an initializer. -/
def Initializes (W : World) (id : ClosureId) : Prop :=
  ∃ bp, W.closures[id.index]? = some bp ∧ bp.initializes = true

theorem Initializes.mono {W V : World} {id : ClosureId} (h : W.Initializes id) (hle : W.Le V) :
    V.Initializes id :=
  h.imp fun _ hbp => ⟨getElem?_of_isPrefix hle.closures hbp.1, hbp.2⟩

/-- The world with one more closure. -/
def withClosure (W : World) (bp : Blueprint) : World :=
  { W with closures := W.closures ++ [bp] }

/-- The world with one more cell. -/
def withCell (W : World) (kind : SlotKind) : World :=
  { W with cells := W.cells ++ [kind] }

/-- The world with one more class. -/
def withClass (W : World) : World :=
  { W with classes := W.classes + 1 }

theorem le_withClosure (W : World) (bp : Blueprint) : W.Le (W.withClosure bp) :=
  { Le.refl W with closures := List.prefix_append _ _ }

theorem le_withCell (W : World) (kind : SlotKind) : W.Le (W.withCell kind) :=
  { Le.refl W with cells := List.prefix_append _ _ }

theorem le_withClass (W : World) : W.Le W.withClass :=
  { Le.refl W with classes := Nat.le_succ _ }

end World

/-! ## Values -/

/-- Whether a value refers to nothing that has to be there. -/
def Value.isPlain : Value → Bool
  | .array _ | .functionRef _ | .closureRef _ | .classRef _ | .bound _ _ => false
  | _ => true

/-- A value that a program can get hold of: what it refers to is there, and it is no member of a
class by itself if the world is trusted.  Programs get hold of closures only, never of functions. -/
inductive Value.Ok (W : World) : Value → Prop
  | plain {v : Value} (h : v.isPlain = true) : Ok W v
  | array {elements : List Value} (h : ∀ v ∈ elements, Ok W v) : Ok W (.array elements)
  | closure {id : ClosureId} {bp : Blueprint} (h : W.closures[id.index]? = some bp)
      (hbp : Trusted W.stale → bp.isMember = false) : Ok W (.closureRef id)
  | classRef {id : ClassId} (h : id.index < W.classes) : Ok W (.classRef id)
  | bound {receiver : InstanceId} {method : ClosureId} (h : W.Knows method) :
      Ok W (.bound receiver method)

/-- A value that is all right stays so in a world with more. -/
theorem Value.Ok.mono {W V : World} {v : Value} (h : v.Ok W) (hle : W.Le V) : v.Ok V := by
  induction h with
  | plain h => exact .plain h
  | array _ ih => exact .array ih
  | closure h hbp => exact .closure (getElem?_of_isPrefix hle.closures h) (hbp ∘ hle.trusted)
  | classRef h => exact .classRef (Nat.lt_of_lt_of_le h hle.classes)
  | bound h => exact .bound (h.mono hle)

/-- The elements of an array are all right. -/
theorem Value.Ok.elements {W : World} {elements : List Value} (h : (Value.array elements).Ok W) :
    ∀ v ∈ elements, v.Ok W := by
  cases h with
  | plain h => exact absurd h (by simp [isPlain])
  | array h => exact h

/-- A value in a slot for a use; any value will do if the world is not trusted. -/
inductive Value.HasKind (W : World) : Value → SlotKind → Prop
  | value {v : Value} (h : v.Ok W) : HasKind W v .value
  | receiver {id : InstanceId} : HasKind W (.instanceRef id) .receiver
  | callee {v : Value} (h : v.Ok W) : HasKind W v .callee
  | parent {id : ClassId} (h : id.index < W.classes) : HasKind W (.classRef id) .parent
  | member {id : ClosureId} (h : W.Knows id) : HasKind W (.closureRef id) .member
  | any {v : Value} {kind : SlotKind} (hstale : ¬Trusted W.stale) (h : v.Ok W) : HasKind W v kind

namespace Value.HasKind

variable {W V : World} {v : Value} {kind use : SlotKind}

theorem ok (h : v.HasKind W .value) : v.Ok W := by
  cases h with
  | value h => exact h
  | any _ h => exact h

/-- A value for any use is a value, if the world is not trusted. -/
theorem ok_of_stale (h : v.HasKind W kind) (hstale : ¬Trusted W.stale) : v.Ok W := by
  cases h with
  | value h => exact h
  | receiver => exact .plain rfl
  | callee h => exact h
  | parent h => exact .classRef h
  | member h =>
    obtain ⟨bp, hbp⟩ := h
    exact .closure hbp fun htrusted => absurd htrusted hstale
  | any _ h => exact h

/-- A value for a use stays one in a world with more. -/
theorem mono (h : v.HasKind W kind) (hle : W.Le V) : v.HasKind V kind := by
  cases h with
  | value h => exact .value (h.mono hle)
  | receiver => exact .receiver
  | callee h => exact .callee (h.mono hle)
  | parent h => exact .parent (Nat.lt_of_lt_of_le h hle.classes)
  | member h => exact .member (h.mono hle)
  | any hstale h => exact .any (hstale ∘ hle.trusted) (h.mono hle)

/-- What is used for one thing can be used for what it serves. -/
theorem serves (h : v.HasKind W kind) (hserves : kind.Serves use) : v.HasKind W use := by
  rcases hserves with rfl | ⟨rfl, hne⟩
  · exact h
  · cases h with
    | value h => exact .value h
    | receiver => exact .value (.plain rfl)
    | callee h => exact .value h
    | parent h => exact .value (.classRef h)
    | member h => exact absurd rfl hne
    | any hstale h => exact .any hstale h

/-- What is used as an instance can be what a function is called on. -/
theorem called (h : v.HasKind W .receiver) (isMember : Bool) :
    v.HasKind W (if isMember then .receiver else .callee) := by
  cases isMember
  · exact .callee (h.serves (.inr ⟨rfl, by simp⟩)).ok
  · exact h

/-- What is used as an instance is one, if the world is trusted. -/
theorem instance_of_trusted (h : v.HasKind W .receiver) (htrusted : Trusted W.stale) :
    ∃ id, v = .instanceRef id := by
  cases h with
  | receiver => exact ⟨_, rfl⟩
  | any hstale _ => exact absurd htrusted hstale

/-- What is used as a class is one, if the world is trusted. -/
theorem class_of_trusted (h : v.HasKind W .parent) (htrusted : Trusted W.stale) :
    ∃ id, v = .classRef id := by
  cases h with
  | parent _ => exact ⟨_, rfl⟩
  | any hstale _ => exact absurd htrusted hstale

/-- A closure in a slot is there. -/
theorem knows {id : ClosureId} (h : HasKind W (.closureRef id) kind) : W.Knows id := by
  have hok : ∀ {v : Value}, v.Ok W → v = .closureRef id → W.Knows id := by
    intro v hv heq
    cases hv with
    | closure hbp _ => exact ⟨_, Value.closureRef.inj heq ▸ hbp⟩
    | plain hplain => exact absurd hplain (by simp [heq, isPlain])
    | array _ => cases heq
    | classRef _ => cases heq
    | bound _ => cases heq
  cases h with
  | value h => exact hok h rfl
  | callee h => exact hok h rfl
  | member h => exact h
  | any _ h => exact hok h rfl

end Value.HasKind

/-! ## Tables -/

/-- All that a table has satisfies a condition. -/
def Bindings.All {α : Type} (p : α → Prop) (table : Bindings α) : Prop :=
  ∀ name x, table.get? name = some x → p x

namespace Bindings.All

variable {α : Type} {p q : α → Prop} {table other : Bindings α}

theorem empty : All p .empty := by
  intro name x h
  simp at h

theorem imp (h : table.All p) (hpq : ∀ x, p x → q x) : table.All q :=
  fun name x hx => hpq x (h name x hx)

/-- A name may be bound to what satisfies the condition. -/
theorem insert (h : table.All p) {name : String} {x : α} (hx : p x) :
    (table.insert name x).All p := by
  intro key y hy
  rw [get?_insert] at hy
  split at hy
  · exact Option.some.inj hy ▸ hx
  · exact h key y hy

/-- A table may take over another one that satisfies the condition. -/
theorem merge (h : table.All p) (hother : other.All p) : (table.merge other).All p := by
  intro key y hy
  rw [get?_merge, Option.or_eq_some_iff] at hy
  rcases hy with hy | ⟨-, hy⟩
  · exact hother key y hy
  · exact h key y hy

end Bindings.All

/-! ## Objects -/

/-- Related lists stay related if an item is replaced by one that is related to its partner. -/
theorem forall₂_set {α β : Type} {R : α → β → Prop} {xs : List α} {ys : List β} {i : Nat} {x : α}
    (h : List.Forall₂ R xs ys) (hx : ∀ y, ys[i]? = some y → R x y) :
    List.Forall₂ R (xs.set i x) ys := by
  induction h generalizing i with
  | nil => exact .nil
  | cons hab hrest ih =>
    cases i with
    | zero => exact .cons (hx _ rfl) hrest
    | succ i => exact .cons hab (ih fun y hy => hx y hy)

/-- A prefix stays one if an item behind it is replaced, or an item by itself. -/
theorem isPrefix_set {α : Type} {xs ys : List α} {i : Nat} {y : α} (h : xs <+: ys)
    (hi : xs.length ≤ i ∨ ys[i]? = some y) : xs <+: ys.set i y := by
  rcases hi with hi | hi
  · obtain ⟨rest, rfl⟩ := h
    rw [List.set_append_right _ _ hi]
    exact List.prefix_append _ _
  · obtain ⟨hlt, rfl⟩ := List.getElem?_eq_some_iff.1 hi
    rw [List.set_getElem_self]
    exact h

/-- What is in an array with a change was there before, or comes of the change. -/
theorem mem_modify {α : Type} {xs : Array α} {i : Nat} {f : α → α} {x : α}
    (h : x ∈ (xs.modify i f).toList) : ∃ y ∈ xs.toList, x = y ∨ x = f y := by
  obtain ⟨j, hj⟩ := List.mem_iff_getElem?.1 h
  rw [Array.getElem?_toList, Array.getElem?_modify] at hj
  split at hj
  · obtain ⟨y, hy, rfl⟩ := Option.map_eq_some_iff.1 hj
    exact ⟨y, Array.mem_toList_iff.2 (Array.mem_of_getElem? hy), .inr rfl⟩
  · exact ⟨x, Array.mem_toList_iff.2 (Array.mem_of_getElem? hj), .inl rfl⟩

/-- A closure runs the function of a blueprint, and its cells are used as the function expects. -/
structure Closure.Ok (W : World) (c : Closure) (bp : Blueprint) : Prop where
  /-- The function is there. -/
  function : W.blueprints[c.function.index]? = some bp
  /-- The cells are used as the function expects. -/
  captures : List.Forall₂ (fun id kind => W.cells[CellId.index id]? = some kind) c.captures.toList
    bp.captures

theorem Closure.Ok.mono {W V : World} {c : Closure} {bp : Blueprint} (h : c.Ok W bp)
    (hle : W.Le V) : c.Ok V bp :=
  ⟨getElem?_of_isPrefix hle.blueprints h.function,
    h.captures.imp fun _ _ hk => getElem?_of_isPrefix hle.cells hk⟩

/-- A cell that has taken its variable over holds a value for its use. -/
def Cell.Ok (W : World) (cell : Cell) (kind : SlotKind) : Prop :=
  ∀ v, cell = .closed v → v.HasKind W kind

theorem Cell.Ok.mono {W V : World} {cell : Cell} {kind : SlotKind} (h : cell.Ok W kind)
    (hle : W.Le V) : cell.Ok V kind :=
  fun v hv => (h v hv).mono hle

/-- The members of a class are there. -/
structure Class.Ok (W : World) (c : Class) : Prop where
  /-- The methods are there. -/
  methods : c.methods.All W.Knows
  /-- The computed properties are there. -/
  properties : c.properties.All W.Knows
  /-- The method that is called on new instances is an initializer. -/
  initializer : ∀ id, c.methods.get? "init" = some id → W.Initializes id

theorem Class.Ok.mono {W V : World} {c : Class} (h : c.Ok W) (hle : W.Le V) : c.Ok V :=
  ⟨h.methods.imp fun _ hid => hid.mono hle, h.properties.imp fun _ hid => hid.mono hle,
    fun id hid => (h.initializer id hid).mono hle⟩

/-- A class without members. -/
theorem Class.Ok.blank {W : World} (name : String) : Class.Ok W ⟨name, .empty, .empty⟩ :=
  ⟨.empty, .empty, fun id hid => by simp at hid⟩

/-- The slots that cells stand for, of those that are open. -/
def Heap.slots (heap : Heap) : List (Option Nat) :=
  heap.cells.toList.map Cell.slot?

/-- A cell stands for a slot. -/
def Heap.Opens (heap : Heap) (id : CellId) : Prop :=
  ∃ slot, heap.cells[id.index]? = some (.openAt slot)

/-- The objects of a heap are as a world says. -/
structure Heap.Ok (W : World) (heap : Heap) : Prop where
  /-- The functions are as their blueprints say. -/
  table : TableFits W.blueprints heap.functions.toList
  /-- The closures run the functions that the world says. -/
  closures : List.Forall₂ (Closure.Ok W) heap.closures.toList W.closures
  /-- The cells are used as the world says. -/
  cells : List.Forall₂ (Cell.Ok W) heap.cells.toList W.cells
  /-- The classes are counted. -/
  size_classes : heap.classes.size = W.classes
  /-- Their members are there. -/
  classes : ∀ c ∈ heap.classes.toList, c.Ok W
  /-- The fields of instances hold values. -/
  instances : ∀ i ∈ heap.instances.toList, i.fields.All (Value.Ok W)
  /-- The cells of earlier runs stay open or closed. -/
  stale : W.stale <+: heap.slots

namespace Heap.Ok

variable {W : World} {heap : Heap}

theorem empty : Heap.Ok .empty .empty :=
  ⟨.nil, .nil, .nil, rfl, by simp [Heap.empty], by simp [Heap.empty], List.nil_prefix⟩

/-! ### Reading -/

/-- A closure of the world is all right on the heap. -/
theorem closure (h : heap.Ok W) {id : ClosureId} {bp : Blueprint}
    (hbp : W.closures[id.index]? = some bp) : (heap.closure id).Ok W bp := by
  obtain ⟨hlt, rfl⟩ := List.getElem?_eq_some_iff.1 hbp
  have hlt' : id.index < heap.closures.size := by
    rw [← Array.length_toList, h.closures.length_eq]
    exact hlt
  have hok := h.closures.get hlt' hlt
  rw [Heap.closure, Array.getD_eq_getD_getElem?, Array.getElem?_eq_getElem hlt', Option.getD_some]
  exact hok

/-- The function of a closure is as the world says. -/
theorem functionOf (h : heap.Ok W) {id : ClosureId} {bp : Blueprint}
    (hbp : W.closures[id.index]? = some bp) : (heap.functionOf id).Fits W.blueprints bp :=
  (TableFits.function heap h.table (h.closure hbp).function).2

/-- Every class is all right, and so is what stands for one that is not there. -/
theorem classAt (h : heap.Ok W) (id : ClassId) : (heap.classAt id).Ok W := by
  rw [Heap.classAt, Array.getD_eq_getD_getElem?]
  cases hc : heap.classes[id.index]? with
  | none => exact .blank _
  | some c => exact h.classes c (Array.mem_toList_iff.2 (Array.mem_of_getElem? hc))

/-- The fields of every instance are all right. -/
theorem instanceAt (h : heap.Ok W) (id : InstanceId) :
    (heap.instanceAt id).fields.All (Value.Ok W) := by
  rw [Heap.instanceAt, Array.getD_eq_getD_getElem?]
  cases hi : heap.instances[id.index]? with
  | none => exact Bindings.All.empty
  | some i => exact h.instances i (Array.mem_toList_iff.2 (Array.mem_of_getElem? hi))

theorem field? (h : heap.Ok W) {id : InstanceId} {name : String} {v : Value}
    (hv : heap.field? id name = some v) : v.Ok W :=
  h.instanceAt id name v hv

/-- A cell that has taken its variable over holds a value for its use. -/
theorem closed (h : heap.Ok W) {id : CellId} {kind : SlotKind} {v : Value}
    (hid : W.cells[id.index]? = some kind) (hv : heap.cell id = .closed v) : v.HasKind W kind := by
  obtain ⟨hlt, rfl⟩ := List.getElem?_eq_some_iff.1 hid
  have hlt' : id.index < heap.cells.size := by
    rw [← Array.length_toList, h.cells.length_eq]
    exact hlt
  have hok := h.cells.get hlt' hlt
  rw [Heap.cell, Array.getD_eq_getD_getElem?, Array.getElem?_eq_getElem hlt',
    Option.getD_some] at hv
  exact hok v hv

/-! ### Creating -/

/-- A new closure is one more of the world. -/
theorem newClosure (h : heap.Ok W) {c : Closure} {bp : Blueprint} (hc : c.Ok W bp) :
    (heap.newClosure c).2.Ok (W.withClosure bp) := by
  have hle := W.le_withClosure bp
  exact {
    table := h.table
    closures := by
      rw [Heap.newClosure, Array.toList_push]
      exact List.rel_append (h.closures.imp fun _ _ hok => hok.mono hle) (.cons (hc.mono hle) .nil)
    cells := h.cells.imp fun _ _ hok => hok.mono hle
    size_classes := h.size_classes
    classes := fun c hc => (h.classes c hc).mono hle
    instances := fun i hi => (h.instances i hi).imp fun _ hv => hv.mono hle
    stale := h.stale }

/-- A new cell that stands for a slot is one more of the world. -/
theorem newCell (h : heap.Ok W) (slot : Nat) (kind : SlotKind) :
    (heap.newCell (.openAt slot)).2.Ok (W.withCell kind) := by
  have hle := W.le_withCell kind
  exact {
    table := h.table
    closures := h.closures.imp fun _ _ hok => hok.mono hle
    cells := by
      rw [Heap.newCell, Array.toList_push]
      exact List.rel_append (h.cells.imp fun _ _ hok => hok.mono hle)
        (.cons (fun v hv => by simp at hv) .nil)
    size_classes := h.size_classes
    classes := fun c hc => (h.classes c hc).mono hle
    instances := fun i hi => (h.instances i hi).imp fun _ hv => hv.mono hle
    stale := by
      rw [Heap.newCell, Heap.slots, Array.toList_push, List.map_append]
      exact h.stale.trans (List.prefix_append _ _) }

/-- A new class is one more of the world. -/
theorem newClass (h : heap.Ok W) (name : String) : (heap.newClass name).2.Ok W.withClass := by
  have hle := W.le_withClass
  exact {
    table := h.table
    closures := h.closures.imp fun _ _ hok => hok.mono hle
    cells := h.cells.imp fun _ _ hok => hok.mono hle
    size_classes := by
      rw [Heap.newClass, Array.size_push, h.size_classes]
      rfl
    classes := by
      intro c hc
      rw [Heap.newClass, Array.toList_push, List.mem_append, List.mem_singleton] at hc
      rcases hc with hc | rfl
      · exact (h.classes c hc).mono hle
      · exact .blank name
    instances := fun i hi => (h.instances i hi).imp fun _ hv => hv.mono hle
    stale := h.stale }

/-- A new instance needs no more of the world. -/
theorem newInstance (h : heap.Ok W) (id : ClassId) : (heap.newInstance id).2.Ok W :=
  { h with
    instances := by
      intro i hi
      rw [Heap.newInstance, Array.toList_push, List.mem_append, List.mem_singleton] at hi
      rcases hi with hi | rfl
      · exact h.instances i hi
      · exact .empty }

/-! ### Changing -/

/-- A cell is closed, or given another value if it is one of an earlier run. -/
theorem setCell (h : heap.Ok W) {id : CellId} {kind : SlotKind} {v : Value}
    (hid : W.cells[id.index]? = some kind) (hv : v.HasKind W kind)
    (hstale : W.stale.length ≤ id.index ∨ heap.slots[id.index]? = some none) :
    (heap.setCell id (.closed v)).Ok W :=
  { h with
    stale := by
      rw [Heap.setCell, Heap.slots, Array.toList_setIfInBounds, List.map_set]
      exact isPrefix_set h.stale hstale
    cells := by
      rw [Heap.setCell, Array.toList_setIfInBounds]
      refine forall₂_set h.cells fun kind' hkind' => ?_
      obtain rfl : kind = kind' := Option.some.inj (hid.symm.trans hkind')
      exact fun v' hv' => Cell.closed.inj hv' ▸ hv }

/-- A class with members that are there in place of another. -/
theorem modifyClass (h : heap.Ok W) (id : ClassId) {f : Class → Class}
    (hf : ∀ c : Class, c.Ok W → (f c).Ok W) :
    Heap.Ok W { heap with classes := heap.classes.modify id.index f } :=
  { h with
    size_classes := (Array.size_modify ..).trans h.size_classes
    classes := by
      intro c hc
      obtain ⟨c', hc', heq | heq⟩ := mem_modify hc
      · exact heq ▸ h.classes c' hc'
      · exact heq ▸ hf c' (h.classes c' hc') }

/-- A method that is there may be given to a class, and an initializer as such only. -/
theorem defineMethod (h : heap.Ok W) (id : ClassId) (name : String) {method : ClosureId}
    (hmethod : W.Knows method) (hinit : name = "init" → W.Initializes method) :
    (heap.defineMethod id name method).Ok W :=
  h.modifyClass id fun _ hc => { hc with
    methods := hc.methods.insert hmethod
    initializer := by
      intro method' hmethod'
      rw [Bindings.get?_insert] at hmethod'
      split at hmethod'
      · next hname => exact Option.some.inj hmethod' ▸ hinit hname.symm
      · exact hc.initializer method' hmethod' }

theorem defineProperty (h : heap.Ok W) (id : ClassId) (name : String) {property : ClosureId}
    (hproperty : W.Knows property) : (heap.defineProperty id name property).Ok W :=
  h.modifyClass id fun _ hc => { hc with properties := hc.properties.insert hproperty }

/-- A class may inherit from any other. -/
theorem inherit (h : heap.Ok W) (subclass superclass : ClassId) :
    (heap.inherit subclass superclass).Ok W :=
  h.modifyClass subclass fun _ hc =>
    ⟨hc.methods.merge (h.classAt superclass).methods,
      hc.properties.merge (h.classAt superclass).properties, fun method hmethod => by
        rw [Bindings.get?_merge, Option.or_eq_some_iff] at hmethod
        rcases hmethod with hmethod | ⟨-, hmethod⟩
        · exact (h.classAt superclass).initializer method hmethod
        · exact hc.initializer method hmethod⟩

/-- A field may be given any value that is all right. -/
theorem setField (h : heap.Ok W) (id : InstanceId) (name : String) {v : Value} (hv : v.Ok W) :
    (heap.setField id name v).Ok W :=
  { h with
    instances := by
      intro i hi
      obtain ⟨i', hi', heq | heq⟩ := mem_modify hi
      · exact heq ▸ h.instances i' hi'
      · exact heq ▸ (h.instances i' hi').insert hv }

end Heap.Ok

end ScriptVM
