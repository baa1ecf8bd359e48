/-
# Heaps up to renaming

Two heaps whose objects are the same up to a renaming of functions and closures: cells, classes and
instances have the same numbers on both, and the closures that are created next stand for each
other. Values are shown alike on both, and each operation on heaps keeps them alike.

Nothing is said about functions and closures that stand for none.
-/
import ScriptVM.Proofs.Value.Renaming

namespace ScriptVM

/-! ## Tables -/

/-- Two tables that bind the same names to related things. -/
def Bindings.Alike {α β : Type} (R : α → β → Prop) (t : Bindings α) (t' : Bindings β) : Prop :=
  ∀ name, Option.Rel R (t.get? name) (t'.get? name)

namespace Bindings.Alike

variable {α β : Type} {R S : α → β → Prop} {t s : Bindings α} {t' s' : Bindings β}

theorem empty : Alike R .empty .empty :=
  fun _ => .none

/-- A name is bound in neither table, or in both. -/
theorem cases (h : Alike R t t') (name : String) :
    (t.get? name = none ∧ t'.get? name = none) ∨
      ∃ a b, t.get? name = some a ∧ t'.get? name = some b ∧ R a b :=
  match t.get? name, t'.get? name, h name with
  | _, _, .none => .inl ⟨rfl, rfl⟩
  | _, _, .some hab => .inr ⟨_, _, rfl, rfl, hab⟩

/-- Two alike tables stay alike when related things are bound to a name. -/
theorem insert (h : Alike R t t') (name : String) {a : α} {b : β} (hab : R a b) :
    Alike R (t.insert name a) (t'.insert name b) := fun key => by
  rw [get?_insert, get?_insert]
  split
  · exact .some hab
  · exact h key

/-- Alike tables that take over alike tables stay alike. -/
theorem merge (h : Alike R t t') (hs : Alike R s s') : Alike R (t.merge s) (t'.merge s') :=
  fun key => by
    rw [get?_merge, get?_merge]
    rcases hs.cases key with ⟨ht, ht'⟩ | ⟨a, b, ht, ht', hab⟩
    · rw [ht, ht']
      exact h key
    · rw [ht, ht']
      exact .some hab

theorem contains_eq (h : Alike R t t') (name : String) : t.contains name = t'.contains name := by
  rcases h.cases name with ⟨ht, ht'⟩ | ⟨a, b, ht, ht', -⟩ <;> simp [Bindings.contains, ht, ht']

end Bindings.Alike

/-! ## Objects -/

/-- Two functions that are the same up to the numbers of the functions among their constants, and up
to the lines of their code. -/
structure Function.Renamed (ρ : Renaming) (f f' : Function) : Prop where
  /-- They have the same name. -/
  name : f.name = f'.name
  /-- They have as many parameters. -/
  arity : f.arity = f'.arity
  /-- They capture as many variables. -/
  captureCount : f.captureCount = f'.captureCount
  /-- They are for the same thing. -/
  kind : f.kind = f'.kind
  /-- Listings show their code under the same name. -/
  chunkName : f.chunk.name = f'.chunk.name
  /-- They have the same code. -/
  code : f.chunk.code = f'.chunk.code
  /-- Their constants are the same. -/
  constants : List.Forall₂ (Value.Restated ρ) f.chunk.constants.toList f'.chunk.constants.toList

/-- Two closures over the same cells. -/
structure Closure.Renamed (ρ : Renaming) (c c' : Closure) : Prop where
  /-- Their functions are the same. -/
  function : ρ.function c.function c'.function
  /-- They have the same cells. -/
  captures : c.captures = c'.captures

/-- Two cells with the same content; none stands for the lowest stack slot. -/
inductive Cell.Renamed (ρ : Renaming) : Cell → Cell → Prop
  | openAt {slot : Nat} (h : 0 < slot) : Renamed ρ (.openAt slot) (.openAt slot)
  | closed {v v' : Value} (h : v.Renamed ρ v') : Renamed ρ (.closed v) (.closed v')

/-- Two classes with the same members. -/
structure Class.Renamed (ρ : Renaming) (c c' : Class) : Prop where
  /-- They have the same name. -/
  name : c.name = c'.name
  /-- They have the same methods. -/
  methods : c.methods.Alike ρ.closure c'.methods
  /-- They have the same computed properties. -/
  properties : c.properties.Alike ρ.closure c'.properties

/-- Two instances with the same fields. -/
structure Instance.Renamed (ρ : Renaming) (i i' : Instance) : Prop where
  /-- They are of the same class. -/
  classId : i.classId = i'.classId
  /-- They have the same fields. -/
  fields : i.fields.Alike (Value.Renamed ρ) i'.fields

/-- Two heaps that are the same up to a renaming. -/
structure Heap.Renamed (ρ : Renaming) (h h' : Heap) : Prop where
  /-- Functions that stand for each other are the same. -/
  functions : ∀ {f f'}, ρ.function f f' → (h.function f).Renamed ρ (h'.function f')
  /-- Closures that stand for each other are the same. -/
  closures : ∀ {c c'}, ρ.closure c c' → (h.closure c).Renamed ρ (h'.closure c')
  /-- The closures that are created next stand for each other. -/
  next : ∀ k, ρ.closure ⟨h.closures.size + k⟩ ⟨h'.closures.size + k⟩
  /-- The cells that closures have are there. -/
  captures : ∀ c, ∀ id ∈ (h.closure c).captures, CellId.index id < h.cells.size
  /-- The cells are the same. -/
  cells : List.Forall₂ (Cell.Renamed ρ) h.cells.toList h'.cells.toList
  /-- The classes are the same. -/
  classes : List.Forall₂ (Class.Renamed ρ) h.classes.toList h'.classes.toList
  /-- The instances are the same. -/
  instances : List.Forall₂ (Instance.Renamed ρ) h.instances.toList h'.instances.toList

/-- Items with one number of related lists are related. -/
theorem rel_getD_of_forall₂ {α β : Type} {R : α → β → Prop} {xs : Array α} {ys : Array β}
    (h : List.Forall₂ R xs.toList ys.toList) {x : α} {y : β} (hxy : R x y) (i : Nat) :
    R (xs.getD i x) (ys.getD i y) := by
  have hlength : xs.size = ys.size := by simpa using h.length_eq
  rw [Array.getD_eq_getD_getElem?, Array.getD_eq_getD_getElem?]
  by_cases hi : i < xs.size
  · rw [Array.getElem?_eq_getElem hi, Array.getElem?_eq_getElem (hlength ▸ hi)]
    have hget := h.get (i := i) (by simpa using hi) (by simpa [← hlength] using hi)
    simpa using hget
  · rw [Array.getElem?_eq_none (Nat.le_of_not_lt hi),
      Array.getElem?_eq_none (hlength ▸ Nat.le_of_not_lt hi)]
    exact hxy

/-- Related lists stay related if items with one number are changed alike. -/
theorem forall₂_modify {α β : Type} {R : α → β → Prop} {xs : Array α} {ys : Array β} {i : Nat}
    {f : α → α} {g : β → β} (h : List.Forall₂ R xs.toList ys.toList)
    (hfg : ∀ x y, R x y → R (f x) (g y)) :
    List.Forall₂ R (xs.modify i f).toList (ys.modify i g).toList := by
  rw [Array.toList_modify, Array.toList_modify]
  generalize xs.toList = as at h
  generalize ys.toList = bs at h
  induction h generalizing i with
  | nil => simp
  | cons hab hrest ih =>
    cases i with
    | zero => exact .cons (hfg _ _ hab) hrest
    | succ i => exact .cons hab ih

/-- Related lists stay related if items with one number are replaced alike. -/
theorem forall₂_set₂ {α β : Type} {R : α → β → Prop} {as : List α} {bs : List β} {i : Nat}
    {a : α} {b : β} (h : List.Forall₂ R as bs) (hab : R a b) :
    List.Forall₂ R (as.set i a) (bs.set i b) := by
  induction h generalizing i with
  | nil => exact .nil
  | cons hxy hrest ih =>
    cases i with
    | zero => exact .cons hab hrest
    | succ i => exact .cons hxy ih

/-- A new closure comes behind those that are there. -/
theorem Heap.closure_newClosure_eq (heap : Heap) (x : Closure) (c : ClosureId) :
    (heap.newClosure x).2.closure c = if c = ⟨heap.closures.size⟩ then x else heap.closure c := by
  have hc : c = ⟨heap.closures.size⟩ ↔ c.index = heap.closures.size := by cases c; simp
  simp only [Heap.closure, Heap.newClosure, Array.getD_eq_getD_getElem?, Array.getElem?_push, hc]
  split <;> rfl

namespace Heap.Renamed

variable {ρ : Renaming} {h h' : Heap} {c c' : ClosureId} {v v' : Value}

/-! ### Reading -/

theorem functionOf (hh : h.Renamed ρ h') (hc : ρ.closure c c') :
    (h.functionOf c).Renamed ρ (h'.functionOf c') :=
  hh.functions (hh.closures hc).function

theorem classAt (hh : h.Renamed ρ h') (id : ClassId) : (h.classAt id).Renamed ρ (h'.classAt id) :=
  rel_getD_of_forall₂ hh.classes ⟨rfl, .empty, .empty⟩ id.index

theorem instanceAt (hh : h.Renamed ρ h') (id : InstanceId) :
    (h.instanceAt id).Renamed ρ (h'.instanceAt id) :=
  rel_getD_of_forall₂ hh.instances ⟨rfl, .empty⟩ id.index

theorem classOf (hh : h.Renamed ρ h') (id : InstanceId) :
    (h.classOf id).Renamed ρ (h'.classOf id) := by
  rw [Heap.classOf, Heap.classOf, (hh.instanceAt id).classId]
  exact hh.classAt _

theorem size_cells (hh : h.Renamed ρ h') : h.cells.size = h'.cells.size := by
  simpa using hh.cells.length_eq

/-- A cell that is there corresponds to the one with its number. -/
theorem cell (hh : h.Renamed ρ h') {id : CellId} (hid : id.index < h.cells.size) :
    (h.cell id).Renamed ρ (h'.cell id) := by
  have hid' : id.index < h'.cells.size := hh.size_cells ▸ hid
  rw [Heap.cell, Heap.cell, Array.getD_eq_getD_getElem?, Array.getD_eq_getD_getElem?,
    Array.getElem?_eq_getElem hid, Array.getElem?_eq_getElem hid']
  have hget := hh.cells.get (i := id.index) (by simpa using hid) (by simpa using hid')
  simpa using hget

/-! ### Texts -/

/-- Corresponding values are displayed alike. -/
theorem displayPlain_eq (hh : h.Renamed ρ h') (hv : v.Renamed ρ v') :
    v.displayPlain h = v'.displayPlain h' := by
  cases hv with
  | @fixed v hfixed =>
    cases v with
    | classRef id => exact congrArg (fun name => s!"<class {name}>") (hh.classAt id).name
    | instanceRef id => exact congrArg (fun name => s!"<{name} instance>") (hh.classOf id).name
    | array _ | functionRef _ | closureRef _ | bound _ _ => cases hfixed
    | _ => rfl
  | array _ _ => rfl
  | functionRef hf => exact congrArg (fun name => s!"<fn {name}>") (hh.functions hf).name
  | closureRef hc => exact congrArg (fun name => s!"<fn {name}>") (hh.functionOf hc).name
  | @bound receiver _ _ hc =>
    exact congrArg₂ (fun name method => s!"<bound method {name}.{method}>")
      (hh.classOf receiver).name
      (hh.functionOf hc).name

mutual

/-- **Renamed values are shown alike.** -/
theorem display_eq (hh : h.Renamed ρ h') : ∀ {v v' : Value}, v.Renamed ρ v' →
    v.display h = v'.display h'
  | .array vs, _, hv => by
    obtain ⟨vs', rfl, hvs⟩ := hv.of_array
    rw [Value.display, Value.display, displayList_eq hh hvs]
  | .nil, _, hv | .bool _, _, hv | .int _, _, hv | .number _, _, hv | .string _, _, hv
  | .functionRef _, _, hv | .closureRef _, _, hv | .classRef _, _, hv | .instanceRef _, _, hv
  | .bound _ _, _, hv | .native _, _, hv => by
    have hplain := hh.displayPlain_eq hv
    cases hv <;> exact hplain

/-- Lists of renamed values are shown alike. -/
theorem displayList_eq (hh : h.Renamed ρ h') : ∀ {vs vs' : List Value},
    List.Forall₂ (Value.Renamed ρ) vs vs' → Value.displayList h vs = Value.displayList h' vs'
  | [], _, .nil => rfl
  | _ :: _, _, .cons hv hvs => by
    rw [Value.displayList, Value.displayList, display_eq hh hv, displayList_eq hh hvs]

end

/-! ### Creating -/

/-- A new closure leaves two heaps corresponding. -/
theorem newClosure (hh : h.Renamed ρ h') {x x' : Closure} (hx : x.Renamed ρ x')
    (hcaptures : ∀ id ∈ x.captures, CellId.index id < h.cells.size) :
    (h.newClosure x).2.Renamed ρ (h'.newClosure x').2 := by
  exact {
    functions := hh.functions
    closures := by
      intro c c' hc
      have hsame := ρ.closure_iff hc (hh.next 0)
      rw [Nat.add_zero, Nat.add_zero] at hsame
      rw [closure_newClosure_eq, closure_newClosure_eq]
      by_cases hnew : c = ⟨h.closures.size⟩
      · rw [if_pos hnew, if_pos (hsame.1 hnew)]
        exact hx
      · rw [if_neg hnew, if_neg (mt hsame.2 hnew)]
        exact hh.closures hc
    next := by
      intro k
      have hnext := hh.next (k + 1)
      simp only [Heap.newClosure, Array.size_push]
      rwa [Nat.add_assoc, Nat.add_assoc, Nat.add_comm 1]
    captures := by
      intro c id hid
      rw [closure_newClosure_eq] at hid
      split at hid
      · exact hcaptures id hid
      · exact hh.captures c id hid
    cells := hh.cells
    classes := hh.classes
    instances := hh.instances }

/-- A new cell leaves two heaps corresponding. -/
theorem newCell (hh : h.Renamed ρ h') {x x' : Cell} (hx : x.Renamed ρ x') :
    (h.newCell x).2.Renamed ρ (h'.newCell x').2 :=
  { hh with
    captures := fun c id hid => by
      rw [Heap.newCell, Array.size_push]
      exact Nat.lt_succ_of_lt (hh.captures c id hid)
    cells := by
      rw [Heap.newCell, Heap.newCell, Array.toList_push, Array.toList_push]
      exact List.rel_append hh.cells (.cons hx .nil) }

/-- A new class leaves two heaps corresponding. -/
theorem newClass (hh : h.Renamed ρ h') (name : String) :
    (h.newClass name).2.Renamed ρ (h'.newClass name).2 :=
  { hh with
    classes := by
      rw [Heap.newClass, Heap.newClass, Array.toList_push, Array.toList_push]
      exact List.rel_append hh.classes (.cons ⟨rfl, .empty, .empty⟩ .nil) }

/-- A new instance leaves two heaps corresponding. -/
theorem newInstance (hh : h.Renamed ρ h') (id : ClassId) :
    (h.newInstance id).2.Renamed ρ (h'.newInstance id).2 :=
  { hh with
    instances := by
      rw [Heap.newInstance, Heap.newInstance, Array.toList_push, Array.toList_push]
      exact List.rel_append hh.instances (.cons ⟨rfl, .empty⟩ .nil) }

/-! ### Changing -/

/-- Corresponding contents of a cell leave two heaps corresponding. -/
theorem setCell (hh : h.Renamed ρ h') (id : CellId) {x x' : Cell} (hx : x.Renamed ρ x') :
    (h.setCell id x).Renamed ρ (h'.setCell id x') :=
  { hh with
    captures := fun c cell hcell => by
      rw [Heap.setCell, Array.size_setIfInBounds]
      exact hh.captures c cell hcell
    cells := by
      rw [Heap.setCell, Heap.setCell, Array.toList_setIfInBounds, Array.toList_setIfInBounds]
      exact forall₂_set₂ hh.cells hx }

/-- Corresponding methods leave two heaps corresponding. -/
theorem defineMethod (hh : h.Renamed ρ h') (id : ClassId) (name : String) (hc : ρ.closure c c') :
    (h.defineMethod id name c).Renamed ρ (h'.defineMethod id name c') :=
  { hh with
    classes := forall₂_modify hh.classes fun _ _ hx => { hx with
      methods := hx.methods.insert name hc } }

/-- Corresponding computed properties leave two heaps corresponding. -/
theorem defineProperty (hh : h.Renamed ρ h') (id : ClassId) (name : String)
    (hc : ρ.closure c c') : (h.defineProperty id name c).Renamed ρ (h'.defineProperty id name c') :=
  { hh with
    classes := forall₂_modify hh.classes fun _ _ hx => { hx with
      properties := hx.properties.insert name hc } }

/-- A class that inherits leaves two heaps corresponding. -/
theorem inherit (hh : h.Renamed ρ h') (subclass superclass : ClassId) :
    (h.inherit subclass superclass).Renamed ρ (h'.inherit subclass superclass) :=
  { hh with
    classes := forall₂_modify hh.classes fun _ _ hx => { hx with
      methods := hx.methods.merge (hh.classAt superclass).methods
      properties := hx.properties.merge (hh.classAt superclass).properties } }

/-- Corresponding fields leave two heaps corresponding. -/
theorem setField (hh : h.Renamed ρ h') (id : InstanceId) (name : String) (hv : v.Renamed ρ v') :
    (h.setField id name v).Renamed ρ (h'.setField id name v') :=
  { hh with
    instances := forall₂_modify hh.instances fun _ _ hx => { hx with
      fields := hx.fields.insert name hv } }

end Heap.Renamed

end ScriptVM
