/-
# Other renamings of the same objects

What is the same up to a renaming is so up to any other one that agrees on the closures that are
there: values of a typed machine refer to no other closures, and to no functions.  So when a machine
is given other functions and starts to run one of them, it is only the functions and the closures
themselves that have to be compared again (`Heap.Renamed.begins`).
-/
import ScriptVM.Proofs.Machine.RenamedPrimitives
import ScriptVM.Proofs.Machine.Renaming
import ScriptVM.Proofs.Machine.Typed
import ScriptVM.Proofs.Session.Scripts

namespace ScriptVM

/-- The renaming that leaves all numbers as they are. -/
def Renaming.identity : Renaming where
  function f f' := f = f'
  closure c c' := c = c'
  function_iff := by
    rintro f _ g _ rfl rfl
    exact Iff.rfl
  closure_iff := by
    rintro c _ d _ rfl rfl
    exact Iff.rfl

/-- A renaming agrees with another one on the closures that are there. -/
def Renaming.Extends (W : World) (ρ σ : Renaming) : Prop :=
  ∀ {c c'}, W.Knows c → ρ.closure c c' → σ.closure c c'

variable {W : World} {ρ σ : Renaming}

/-! ## Values -/

namespace Value

variable {v v' : Value} {kind : SlotKind}

theorem isFixed_of_isPlain (h : v.isPlain = true) : v.isFixed = true := by
  cases v <;> first | rfl | cases h

/-- A value is the same as itself. -/
theorem Ok.renamed (h : v.Ok W) : v.Renamed .identity v := by
  induction h with
  | plain h => exact .fixed (isFixed_of_isPlain h)
  | array _ ih => exact .array rfl fun i hi _ => ih _ (List.getElem_mem hi)
  | closure _ _ => exact .closureRef rfl
  | classRef _ => exact .fixed rfl
  | bound _ => exact .bound rfl

/-- A value in a slot is a value, or a closure that is there. -/
theorem HasKind.ok_or (h : v.HasKind W kind) : v.Ok W ∨ ∃ c, v = .closureRef c ∧ W.Knows c := by
  cases h with
  | value h => exact .inl h
  | receiver => exact .inl (.plain rfl)
  | callee h => exact .inl h
  | parent h => exact .inl (.classRef h)
  | member h => exact .inr ⟨_, rfl, h⟩
  | any _ h => exact .inl h

theorem HasKind.renamed (h : v.HasKind W kind) : v.Renamed .identity v := by
  rcases h.ok_or with h | ⟨c, rfl, -⟩
  · exact h.renamed
  · exact .closureRef rfl

/-- A value of the world keeps its counterpart while more closures are numbered. -/
theorem Renamed.rebase (h : v.Renamed ρ v') (hle : ρ.Extends W σ) (hv : v.Ok W) :
    v.Renamed σ v' := by
  induction h with
  | fixed h => exact .fixed h
  | array hlength _ ih =>
    exact .array hlength fun i hi hi' => ih i hi hi' (hv.elements _ (List.getElem_mem hi))
  | functionRef _ =>
    cases hv with
    | plain h => cases h
  | closureRef h => exact .closureRef (hle (HasKind.value hv).knows h)
  | bound h =>
    cases hv with
    | plain hplain => cases hplain
    | bound hc => exact .bound (hle hc h)

/-- A value for some use keeps its counterpart while more closures are numbered. -/
theorem Renamed.rebase_of_hasKind (h : v.Renamed ρ v') (hle : ρ.Extends W σ)
    (hv : v.HasKind W kind) : v.Renamed σ v' := by
  rcases hv.ok_or with hv | ⟨c, rfl, hc⟩
  · exact h.rebase hle hv
  · cases h with
    | fixed h => cases h
    | closureRef h => exact .closureRef (hle hc h)

end Value

/-! ## Tables -/

namespace Bindings

variable {α β : Type} {p : α → Prop} {R S : α → β → Prop} {t : Bindings α} {t' : Bindings β}

/-- What a table has may be known to satisfy a condition. -/
theorem Alike.imp_of_all (h : t.Alike R t') (hall : t.All p) (hRS : ∀ a b, p a → R a b → S a b) :
    t.Alike S t' := fun name => by
  rcases h.cases name with ⟨ht, ht'⟩ | ⟨a, b, ht, ht', hab⟩
  · rw [ht, ht']
    exact .none
  · rw [ht, ht']
    exact .some (hRS a b (hall name a ht) hab)

/-- A table is like itself. -/
theorem All.alike {T : α → α → Prop} (hall : t.All p) (hT : ∀ a, p a → T a a) : t.Alike T t :=
  fun name => by
    cases ht : t.get? name with
    | none => exact .none
    | some a => exact .some (hT a (hall name a ht))

end Bindings

/-- Items that are related, and of which the first is known to satisfy a condition. -/
theorem forall₂_imp_of_forall {α β : Type} {p : α → Prop} {R S : α → β → Prop} {xs : List α}
    {ys : List β} (h : List.Forall₂ R xs ys) (hp : ∀ x ∈ xs, p x)
    (hRS : ∀ x y, p x → R x y → S x y) : List.Forall₂ S xs ys := by
  induction h with
  | nil => exact .nil
  | cons hxy _ ih =>
    exact .cons (hRS _ _ (hp _ List.mem_cons_self) hxy)
      (ih fun x hx => hp x (List.mem_cons_of_mem _ hx))

/-! ## Heaps -/

namespace Heap

variable {heap heap' : Heap}

/-- The closures that there are run functions that there are, and others run the first one. -/
theorem Ok.function_lt (h : heap.Ok W) {n : Nat} (hle : heap.functions.size ≤ n) (hpos : 0 < n)
    (c : ClosureId) : (heap.closure c).function.index < n := by
  by_cases hc : c.index < heap.closures.size
  · have hlt : c.index < W.closures.length := by
      rwa [← h.closures.length_eq, Array.length_toList]
    have hfunction := (h.closure (List.getElem?_eq_getElem hlt)).function
    refine Nat.lt_of_lt_of_le ?_ hle
    rw [← Array.length_toList, h.table.length_eq]
    exact (List.getElem?_eq_some_iff.1 hfunction).1
  · rw [Heap.closure, Array.getD_eq_getD_getElem?, Array.getElem?_eq_none (Nat.le_of_not_lt hc)]
    exact hpos

/-- The cells that closures have are there. -/
theorem Ok.capture_lt (h : heap.Ok W) (c : ClosureId) :
    ∀ id ∈ (heap.closure c).captures, CellId.index id < heap.cells.size := by
  intro id hid
  by_cases hc : c.index < heap.closures.size
  · have hlt : c.index < W.closures.length := by
      rwa [← h.closures.length_eq, Array.length_toList]
    obtain ⟨kind, -, hkind⟩ := exists_mem_of_forall₂
      (h.closure (List.getElem?_eq_getElem hlt)).captures (Array.mem_toList_iff.2 hid)
    rw [← Array.length_toList, h.cells.length_eq]
    exact (List.getElem?_eq_some_iff.1 hkind).1
  · rw [Heap.closure, Array.getD_eq_getD_getElem?,
      Array.getElem?_eq_none (Nat.le_of_not_lt hc)] at hid
    exact absurd hid (Array.not_mem_empty _)

/-- A cell of a typed machine is open above the lowest slot, or closed. -/
theorem Ok.cells_renamed (h : heap.Ok W) (hclosed : ∀ id, ¬heap.Opens id) :
    List.Forall₂ (Cell.Renamed .identity) heap.cells.toList heap.cells.toList := by
  refine List.forall₂_same.2 fun cell hcell => ?_
  obtain ⟨kind, -, hok⟩ := exists_mem_of_forall₂ h.cells hcell
  cases cell with
  | openAt slot =>
    obtain ⟨i, hi⟩ := List.mem_iff_getElem?.1 hcell
    exact absurd ⟨slot, by rwa [Array.getElem?_toList] at hi⟩ (hclosed ⟨i⟩)
  | closed v => exact .closed (hok v rfl).renamed

/-- A function is its own counterpart where all numbers stay. -/
theorem function_renamed_self (f : Function) : f.Renamed .identity f where
  name := rfl
  arity := rfl
  captureCount := rfl
  kind := rfl
  chunkName := rfl
  code := rfl
  constants := List.forall₂_same.2 fun v _ => by
    cases v <;> first | exact .same rfl | exact .functionRef rfl

/-- Objects are the same as themselves. -/
theorem Ok.renamed (h : heap.Ok W) (hclosed : ∀ id, ¬heap.Opens id) :
    heap.Renamed .identity heap where
  functions := by
    rintro f _ rfl
    exact function_renamed_self _
  closures := by
    rintro c _ rfl
    exact ⟨rfl, rfl⟩
  next := fun _ => rfl
  captures := h.capture_lt
  cells := h.cells_renamed hclosed
  classes := List.forall₂_same.2 fun c hc => ⟨rfl, (h.classes c hc).methods.alike fun _ _ => rfl,
    (h.classes c hc).properties.alike fun _ _ => rfl⟩
  instances := List.forall₂_same.2 fun i hi =>
    ⟨rfl, (h.instances i hi).alike fun _ hv => hv.renamed⟩

/-- **Objects are the same for another renaming**, once the first heap is given other functions and
a closure over one of them, and the second one other functions and closures. -/
theorem Renamed.begins (h : heap.Renamed ρ heap') (hok : heap.Ok W) (hle : ρ.Extends W σ)
    {functions : Array Function} (functions' : Array Function) (closures' : Array Closure)
    (main : FunctionId)
    (hfunctions : ∀ {f f' : FunctionId}, σ.function f f' →
      (functions.getD f.index default).Renamed σ (functions'.getD f'.index default))
    (hfresh : ∀ {c c'}, σ.closure c c' → c ≠ ⟨heap.closures.size⟩)
    (hclosures : ∀ {c c'}, σ.closure c c' →
      (heap.closure c).Renamed σ (closures'.getD c'.index default))
    (hnext : ∀ k, σ.closure ⟨heap.closures.size + 1 + k⟩ ⟨closures'.size + k⟩) :
    (Heap.newClosure { heap with functions } ⟨main, #[]⟩).2.Renamed σ
      { heap' with functions := functions', closures := closures' } where
  functions := hfunctions
  closures := by
    intro c c' hc
    rw [closure_newClosure_eq, if_neg (hfresh hc)]
    exact hclosures hc
  next := by
    intro k
    simp only [Heap.newClosure, Array.size_push]
    exact hnext k
  captures := by
    intro c id hid
    rw [closure_newClosure_eq] at hid
    split at hid
    · exact absurd hid (by simp)
    · exact h.captures c id hid
  cells := by
    refine forall₂_imp_of_forall h.cells
      (p := fun cell => ∀ v, cell = .closed v → ∃ kind, v.HasKind W kind) (fun cell hcell => ?_)
      fun cell cell' hcell hrenamed => ?_
    · -- What a closed cell holds is known to the world, so its new name is known, too.
      obtain ⟨kind, -, hkind⟩ := exists_mem_of_forall₂ hok.cells hcell
      exact fun v hv => ⟨kind, hkind v hv⟩
    · cases hrenamed with
      | openAt hslot => exact .openAt hslot
      | closed hv =>
        obtain ⟨kind, hkind⟩ := hcell _ rfl
        exact .closed (hv.rebase_of_hasKind hle hkind)
  classes := forall₂_imp_of_forall h.classes hok.classes fun _ _ hc hrenamed => {
    name := hrenamed.name
    methods := hrenamed.methods.imp_of_all hc.methods fun _ _ => hle
    properties := hrenamed.properties.imp_of_all hc.properties fun _ _ => hle }
  instances := forall₂_imp_of_forall h.instances hok.instances fun _ _ hi hrenamed => {
    classId := hrenamed.classId
    fields := hrenamed.fields.imp_of_all hi fun _ _ hv hrenamed => hrenamed.rebase hle hv }

end Heap

end ScriptVM
