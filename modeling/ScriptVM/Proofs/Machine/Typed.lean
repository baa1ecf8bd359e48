/-
# Machines whose slots are used as they should

`At W S m` says that the objects of a machine are as a world says, that its stack has the slots of a
shape, each with a value for its use, and that the open cells stand for slots that are marked as
captured.

Below it come what the operations on the stack and on captured variables make of such a machine.
-/
import ScriptVM.Proofs.Machine.Views
import ScriptVM.Proofs.Machine.World

namespace ScriptVM

/-! ## Lists -/

section

variable {α β γ : Type} {R : α → β → Prop}

/-- Lists that are related in two steps are related. -/
theorem forall₂_comp {Q : β → γ → Prop} {P : α → γ → Prop} {xs : List α} {ys : List β} {zs : List γ}
    (h : ∀ a b c, R a b → Q b c → P a c) (hxy : List.Forall₂ R xs ys) (hyz : List.Forall₂ Q ys zs) :
    List.Forall₂ P xs zs := by
  induction hxy generalizing zs with
  | nil => cases hyz; exact .nil
  | cons hab _ ih =>
    cases hyz with
    | cons hbc hrest => exact .cons (h _ _ _ hab hbc) (ih hrest)

/-- A list that is related to two parts has two parts itself. -/
theorem exists_append_of_forall₂ {xs : List α} {ys zs : List β}
    (h : List.Forall₂ R xs (ys ++ zs)) :
    ∃ xs₁ xs₂, xs = xs₁ ++ xs₂ ∧ List.Forall₂ R xs₁ ys ∧ List.Forall₂ R xs₂ zs := by
  induction ys generalizing xs with
  | nil => exact ⟨[], xs, rfl, .nil, h⟩
  | cons y ys ih =>
    cases h with
    | cons hxy hrest =>
      obtain ⟨xs₁, xs₂, rfl, h₁, h₂⟩ := ih hrest
      exact ⟨_ :: xs₁, xs₂, rfl, .cons hxy h₁, h₂⟩

/-- An item with a number cuts a list. -/
theorem exists_append_of_slot? {X : List α} {i : Nat} {x : α} (h : slot? X i = some x) :
    ∃ above below, X = above ++ x :: below ∧ i = below.length := by
  induction X with
  | nil => simp [slot?] at h
  | cons y rest ih =>
    rw [slot?] at h
    split at h
    · next hi => exact ⟨[], rest, by rw [Option.some.inj h]; rfl, hi.symm⟩
    · obtain ⟨above, below, rfl, hi⟩ := ih h
      exact ⟨y :: above, below, rfl, hi⟩

theorem slot?_cut (X Y : List α) (x : α) : slot? (X ++ x :: Y) Y.length = some x :=
  slot?_append_of_some (slot?_cons_length x Y)

/-- Another item does not change with one that is replaced. -/
theorem slot?_replace {X Y : List α} {i : Nat} (x y : α) (h : i ≠ Y.length) :
    slot? (X ++ x :: Y) i = slot? (X ++ y :: Y) i := by
  induction X with
  | nil => rw [List.nil_append, List.nil_append, slot?, slot?, if_neg h.symm, if_neg h.symm]
  | cons z rest ih =>
    rw [List.cons_append, List.cons_append, slot?, slot?, ih]
    simp

end

/-- The slot of a value is replaced, and no other. -/
theorem Stack.down_replace {α : Type} {capacity : Nat} {s : Stack α capacity} {X Y : List α}
    {x y : α} {i : Nat} (h : s.down = X ++ x :: Y) (hi : i = Y.length) :
    (s.replace i y).down = X ++ y :: Y := by
  have hlist : s.toList = Y.reverse ++ x :: X.reverse := by
    rw [← List.reverse_inj, ← Stack.down, h]
    simp
  rw [Stack.down, toList_replace, hlist, hi, ← List.length_reverse,
    List.set_append_right _ _ (Nat.le_refl _)]
  simp

/-! ## Typed machines -/

/-- Open cells stand for slots that are marked as captured, and can be found. -/
structure CellsAt (W : World) (S : Shape) (heap : Heap) (openCells : List CellId) : Prop where
  /-- The cells to be looked through are open cells of this run. -/
  known : ∀ id ∈ openCells, W.stale.length ≤ CellId.index id ∧ heap.Opens id
  /-- An open cell of this run is among them, and stands for a captured slot of its use. -/
  opened : ∀ i slot : Nat, W.stale.length ≤ i → heap.cells[i]? = some (.openAt slot) →
    ⟨i⟩ ∈ openCells ∧ ∃ kind, W.cells[i]? = some kind ∧ slot? S slot = some ⟨kind, true⟩

namespace CellsAt

variable {W : World} {X S T : Shape} {s : Slot} {heap : Heap} {openCells : List CellId}

/-- Only the cells of the heap matter. -/
theorem of_cells (h : CellsAt W S heap openCells) {heap' : Heap}
    (hcells : heap'.cells = heap.cells) :
    CellsAt W S heap' openCells := by
  refine ⟨fun id hid => ⟨(h.known id hid).1, ?_⟩, fun i slot hnew hi => h.opened i slot hnew ?_⟩
  · rw [Heap.Opens, hcells]
    exact (h.known id hid).2
  · rw [← hcells]
    exact hi

/-- The slots that cells stand for can be those of another shape. -/
theorem imp (h : CellsAt W S heap openCells)
    (hST : ∀ slot kind, slot? S slot = some ⟨kind, true⟩ → slot? T slot = some ⟨kind, true⟩) :
    CellsAt W T heap openCells where
  known := h.known
  opened i slot hnew hi := by
    obtain ⟨hmem, kind, hkind, hslot⟩ := h.opened i slot hnew hi
    exact ⟨hmem, kind, hkind, hST slot kind hslot⟩

/-- A slot that is not captured may be put to another use. -/
theorem replace (h : CellsAt W (X ++ s :: S) heap openCells) (hs : s.captured = false) (t : Slot) :
    CellsAt W (X ++ t :: S) heap openCells := by
  refine h.imp fun slot kind hslot => ?_
  by_cases hlen : slot = S.length
  · rw [hlen, slot?_cut, Option.some.injEq] at hslot
    rw [hslot] at hs
    simp at hs
  · rw [← hslot]
    exact slot?_replace _ _ hlen

/-- Slots that are not captured may go away. -/
theorem drop (h : CellsAt W (X ++ S) heap openCells) (hX : ∀ s ∈ X, s.captured = false) :
    CellsAt W S heap openCells := by
  refine h.imp fun slot kind hslot => ?_
  by_cases hlt : slot < S.length
  · rw [← hslot, slot?_append hlt]
  · obtain ⟨j, rfl⟩ := Nat.exists_eq_add_of_le (Nat.le_of_not_lt hlt)
    rw [slot?_append_right] at hslot
    exact absurd (hX _ (mem_of_slot? hslot)) (by simp)

end CellsAt

/-- A value is one for the use of a slot. -/
abbrev Value.Fills (W : World) (v : Value) (s : Slot) : Prop :=
  v.HasKind W s.kind

/-- A machine has the slots of a shape, with values for their uses. -/
structure At (W : World) (S : Shape) (m : Machine) : Prop where
  /-- The objects are as the world says. -/
  heap : m.heap.Ok W
  /-- The global variables hold values. -/
  globals : m.globals.All (Value.Ok W)
  /-- The slots hold values for their uses. -/
  values : List.Forall₂ (Value.Fills W) m.values S
  /-- The open cells stand for captured slots. -/
  cells : CellsAt W S m.heap m.openCells

namespace At

variable {W : World} {S T X Y : Shape} {s : Slot} {kind : SlotKind} {m m' : Machine} {v : Value}
  {n : Nat}

/-- More slots may count as captured. -/
theorem le (h : At W S m) (hle : S.Le T) : At W T m where
  heap := h.heap
  globals := h.globals
  values := forall₂_comp (fun _ _ _ hv hst => by rw [Value.Fills, ← hst.1]; exact hv) h.values hle
  cells := h.cells.imp fun slot kind hslot => by
    obtain ⟨⟨kind', captured⟩, ht, hk, hc⟩ := exists_slot?_of_forall₂ hle hslot
    obtain rfl : kind = kind' := hk
    obtain rfl : captured = true := hc rfl
    exact ht

/-- The calls do not matter. -/
theorem reframe (h : At W S m) {frames : Stack Frame frameLimit} : At W S { m with frames } :=
  ⟨h.heap, h.globals, h.values, h.cells⟩

theorem moveTo (h : At W S m) (ip : Nat) : At W S (m.moveTo ip) :=
  h.reframe

theorem survives (h : At W S m) : m.Survives W.toGround :=
  ⟨W, rfl, h.heap, h.globals⟩

theorem length_values (h : At W S m) : m.values.length = S.length :=
  h.values.length_eq

/-- A value for its use is pushed into a new slot. -/
theorem pushed (h : At W S m) (hp : m.Pushed v m') (hv : v.Fills W s) : At W (s :: S) m' where
  heap := hp.heap ▸ h.heap
  globals := hp.globals ▸ h.globals
  values := hp.values ▸ .cons hv h.values
  cells := by
    rw [hp.heap, hp.openCells]
    exact h.cells.imp fun _ _ hslot => slot?_append_of_some (X := [s]) hslot

/-- The value on top is one for the use of its slot. -/
theorem popped (h : At W (s :: S) m) (hs : s.captured = false) (hp : m'.Pushed v m) :
    v.Fills W s ∧ At W S m' := by
  have hvalues := h.values
  rw [hp.values] at hvalues
  cases hvalues with
  | cons hv hrest =>
    refine ⟨hv, hp.heap ▸ h.heap, hp.globals ▸ h.globals, hrest, ?_⟩
    rw [← hp.heap, ← hp.openCells]
    exact h.cells.drop (X := [s]) fun t ht => List.mem_singleton.1 ht ▸ hs

/-- The slot at a distance from the top holds a value for its use. -/
theorem value (h : At W S m) (hs : S[n]? = some s) :
    ∃ v, m.values[n]? = some v ∧ v.Fills W s := by
  obtain ⟨hlt, rfl⟩ := List.getElem?_eq_some_iff.1 hs
  have hlt' : n < m.values.length := by
    rw [h.length_values]
    exact hlt
  exact ⟨_, List.getElem?_eq_getElem hlt', h.values.get hlt' hlt⟩

/-- The slot with a number holds a value for its use. -/
theorem slot (h : At W S m) (hs : slot? S n = some s) :
    ∃ v, slot? m.values n = some v ∧ v.Fills W s :=
  exists_slot?_of_forall₂ h.values.flip hs

/-- The slot below others is put to another use, for which its value is good. -/
theorem rekind (h : At W (X ++ s :: S) m) (hs : s.captured = false)
    (hv : m.values[X.length]? = some v) (hkind : v.HasKind W kind) :
    At W (X ++ .temp kind :: S) m where
  heap := h.heap
  globals := h.globals
  values := by
    obtain ⟨above, below, hvalues, habove, hbelow⟩ := exists_append_of_forall₂ h.values
    cases hbelow with
    | cons hx hrest =>
      rw [hvalues, ← habove.length_eq, List.getElem?_append_right (Nat.le_refl _), Nat.sub_self,
        List.getElem?_cons_zero, Option.some.injEq] at hv
      rw [hvalues]
      exact List.rel_append habove (.cons (hv ▸ hkind) hrest)
  cells := h.cells.replace hs _

/-- The value below others is replaced. -/
theorem replaced (h : At W (X ++ s :: S) m) (hs : s.captured = false) (hv : v.HasKind W kind) :
    At W (X ++ .temp kind :: S) { m with stack := m.stack.replace S.length v } ∧
      (m.stack.replace S.length v).down[X.length]? = some v := by
  obtain ⟨above, below, hvalues, habove, hbelow⟩ := exists_append_of_forall₂ h.values
  cases hbelow with
  | @cons x _ below _ hx hrest =>
    have hdown := Stack.down_replace (y := v) hvalues hrest.length_eq.symm
    refine ⟨⟨h.heap, h.globals, ?_, h.cells.replace hs _⟩, ?_⟩
    · show List.Forall₂ _ (m.stack.replace S.length v).down _
      rw [hdown]
      exact List.rel_append habove (.cons hv hrest)
    · rw [hdown, ← habove.length_eq, List.getElem?_append_right (Nat.le_refl _), Nat.sub_self,
        List.getElem?_cons_zero]

/-- A variable is assigned. -/
theorem assigned (h : At W S m) (hs : slot? S n = some s) (hv : v.Fills W s) :
    At W S { m with stack := m.stack.replace n v } := by
  obtain ⟨above, below, rfl, hn⟩ := exists_append_of_slot? hs
  obtain ⟨above', below', hvalues, habove, hbelow⟩ := exists_append_of_forall₂ h.values
  cases hbelow with
  | cons hx hrest =>
    have hdown := Stack.down_replace (y := v) hvalues (hn.trans hrest.length_eq.symm)
    refine ⟨h.heap, h.globals, ?_, h.cells⟩
    show List.Forall₂ _ (m.stack.replace n v).down _
    rw [hdown]
    exact List.rel_append habove (.cons hv hrest)

end At

/-! ## Operations on the stack -/

namespace Exec

variable {W : World} {S X : Shape} {s : Slot} {kind : SlotKind} {m : Machine} {v : Value}

theorem push_at (h : At W S m) (hv : v.Fills W s) :
    Ensures W.toGround (push v) m fun _ m' => At W (s :: S) m' ∧ m'.calls = m.calls :=
  (ensures_push h.survives v).imp fun _ _ hp => ⟨h.pushed hp hv, hp.calls⟩

/-- The value on top may be popped, unless a cell stands for its slot. -/
theorem pop_at (h : At W (s :: S) m) (hs : s.captured = false) :
    Ensures W.toGround pop m fun v m' => v.Fills W s ∧ At W S m' ∧ m'.calls = m.calls := by
  obtain ⟨v, values, -, -, hvalues⟩ := List.forall₂_cons_right_iff.1 h.values
  refine (ensures_pop hvalues).imp fun a m' ⟨ha, hp⟩ => ?_
  obtain ⟨hv, hat⟩ := h.popped hs hp
  exact ⟨ha ▸ hv, hat, hp.calls.symm⟩

/-- Operands may be popped, as many as one likes. -/
theorem popMany_at {n : Nat} (h : At W (List.replicate n .operand ++ S) m) :
    Ensures W.toGround (popMany n) m fun values m' =>
      (∀ v ∈ values, v.Ok W) ∧ At W S m' ∧ m'.calls = m.calls := by
  obtain ⟨above, below, hvalues, habove, hbelow⟩ := exists_append_of_forall₂ h.values
  have hn : above.length = n := by
    rw [habove.length_eq, List.length_replicate]
  have hlength : m.stack.size = n + below.length := by
    rw [m.size_stack, hvalues, List.length_append, hn]
  have htop := Stack.topItems_eq hvalues hn.symm
  have hdown := Stack.down_truncate hvalues (n := m.stack.size - n) (by omega)
  unfold Ensures popMany
  rw [if_pos (by omega)]
  refine ⟨?_, ⟨h.heap, h.globals, ?_, ?_⟩, rfl⟩
  · intro v hv
    rw [htop, List.mem_reverse] at hv
    obtain ⟨s, hs, hfills⟩ := exists_mem_of_forall₂ habove hv
    rw [List.eq_of_mem_replicate hs] at hfills
    exact hfills.ok
  · show List.Forall₂ _ (m.stack.truncate (m.stack.size - n)).down S
    rw [hdown]
    exact hbelow
  · refine h.cells.drop fun s hs => ?_
    rw [List.eq_of_mem_replicate hs]

/-- A callee may be replaced by a value for another use. -/
theorem setCallee_at {arguments : UInt8} (h : At W (X ++ s :: S) m)
    (hX : X.length = arguments.toNat) (hs : s.captured = false) (hv : v.HasKind W kind) :
    Ensures W.toGround (setCallee arguments v) m fun _ m' => At W (X ++ .temp kind :: S) m' ∧
      m'.calls = m.calls ∧ m'.values[X.length]? = some v := by
  have hlength := h.length_values
  rw [List.length_append, List.length_cons] at hlength
  obtain ⟨hat, htop⟩ := h.replaced hs hv
  refine Ensures.bind_of_eq (calleeSlot_eq (n := S.length) (by omega)) ?_
  unfold Ensures setSlot
  rw [if_pos (by rw [m.size_stack]; omega)]
  exact ⟨hat, rfl, htop⟩

end Exec

end ScriptVM
