/-
# Captured variables on typed machines

A cell holds a value for the use of its variable, whether it is open or closed.  Closing cells keeps
that, and takes away all open cells above a slot.  The cells of a new closure are those that its
function expects.
-/
import ScriptVM.Proofs.Machine.Typed

namespace ScriptVM

/-! ## Single cells -/

/-- A cell of the world is on the heap. -/
theorem Heap.Ok.getElem?_cells {W : World} {heap : Heap} {id : CellId} {kind : SlotKind}
    (h : heap.Ok W) (hid : W.cells[id.index]? = some kind) :
    heap.cells[id.index]? = some (heap.cell id) := by
  have hlt : id.index < heap.cells.size := by
    rw [← Array.length_toList, h.cells.length_eq]
    exact (List.getElem?_eq_some_iff.1 hid).1
  rw [Heap.cell, Array.getD_eq_getD_getElem?, Array.getElem?_eq_getElem hlt, Option.getD_some]

/-- An open cell is one of this run, if the world is trusted. -/
theorem Heap.Ok.stale_le {W : World} {heap : Heap} {i slot : Nat} (h : heap.Ok W)
    (htrusted : Trusted W.stale) (hi : heap.cells[i]? = some (.openAt slot)) :
    W.stale.length ≤ i := by
  refine Nat.le_of_not_lt fun hlt => ?_
  have hstale := getElem?_of_isPrefix h.stale (List.getElem?_eq_getElem hlt)
  rw [Heap.slots, List.getElem?_map, Array.getElem?_toList, hi, Option.map_some,
    htrusted _ (List.getElem_mem hlt)] at hstale
  simp [Cell.slot?] at hstale

namespace At

variable {W : World} {S : Shape} {kind : SlotKind} {m : Machine} {id : CellId} {slot : Nat}

/-- An open cell of this run stands for a slot of its use. -/
theorem opened (h : At W S m) (hid : W.cells[id.index]? = some kind)
    (hnew : W.stale.length ≤ id.index) (hcell : m.heap.cell id = .openAt slot) :
    slot? S slot = some ⟨kind, true⟩ := by
  have hget := h.heap.getElem?_cells hid
  rw [hcell] at hget
  obtain ⟨-, kind', hkind', hslot⟩ := h.cells.opened id.index slot hnew hget
  obtain rfl : kind = kind' := Option.some.inj (hid.symm.trans hkind')
  exact hslot

/-- Where an open cell is not of this run, the world is not trusted. -/
theorem not_trusted (h : At W S m) (hid : W.cells[id.index]? = some kind)
    (hold : ¬W.stale.length ≤ id.index) (hcell : m.heap.cell id = .openAt slot) :
    ¬Trusted W.stale := by
  have hget := h.heap.getElem?_cells hid
  rw [hcell] at hget
  exact fun htrusted => hold (h.heap.stale_le htrusted hget)

end At

namespace Exec

variable {W : World} {S : Shape} {kind : SlotKind} {m : Machine} {id : CellId} {v : Value}

/-- The value of a captured variable. -/
inductive Holds (m : Machine) (id : CellId) (v : Value) : Prop
  | opened {slot : Nat} (h : m.heap.cell id = .openAt slot) (hv : slot? m.values slot = some v)
  | closed (h : m.heap.cell id = .closed v)

/-- A captured variable has its value where cells and slots are the same. -/
theorem Holds.congr {m' : Machine} (h : Holds m id v) (hcells : m'.heap.cells = m.heap.cells)
    (hvalues : m'.values = m.values) : Holds m' id v := by
  have hcell : m'.heap.cell id = m.heap.cell id := by
    rw [Heap.cell, hcells]
    rfl
  cases h with
  | opened h hv => exact .opened (hcell.trans h) (hvalues ▸ hv)
  | closed h => exact .closed (hcell.trans h)

/-- A captured variable has one value. -/
theorem Holds.unique {w : Value} (h : Holds m id v) (hw : Holds m id w) : v = w := by
  cases h with
  | opened h hv =>
    cases hw with
    | opened h' hw =>
      obtain rfl := Cell.openAt.inj (h.symm.trans h')
      exact Option.some.inj (hv.symm.trans hw)
    | closed h' => cases h.symm.trans h'
  | closed h =>
    cases hw with
    | opened h' _ => cases h.symm.trans h'
    | closed h' => exact Cell.closed.inj (h.symm.trans h')

/-- Reading a captured variable.  The cell may be one of an earlier run, which reads whatever is in
its slot now. -/
theorem getCell_at (h : At W S m) (hid : W.cells[id.index]? = some kind) :
    Ensures W.toGround (getCell id) m fun v m' => m' = m ∧ Holds m id v ∧ v.HasKind W kind := by
  refine Ensures.bind_heap ?_
  split
  · next slot hcell =>
    by_cases hnew : W.stale.length ≤ id.index
    · obtain ⟨v, hv, hfills⟩ := h.slot (h.opened hid hnew hcell)
      exact Ensures.of_eq (getSlot_eq hv) ⟨rfl, .opened hcell hv, hfills⟩
    · have hstale := h.not_trusted hid hnew hcell
      cases hslot : slot? m.values slot with
      | some v =>
        obtain ⟨s, -, hfills⟩ := exists_slot?_of_forall₂ h.values hslot
        exact Ensures.of_eq (getSlot_eq hslot)
          ⟨rfl, .opened hcell hslot, .any hstale (hfills.ok_of_stale hstale)⟩
      | none =>
        have hget : m.stack.items[slot]? = none := (Stack.slot?_down m.stack slot).symm.trans hslot
        show Ensures W.toGround (ofStack (m.stack.get slot)) m _
        rw [Stack.get, hget]
        exact Ensures.defect hstale h.survives
  · next v hcell => exact ⟨rfl, .closed hcell, h.heap.closed hid hcell⟩

/-- A captured variable may be given a value for its use. -/
theorem setCell_at (h : At W S m) (hid : W.cells[id.index]? = some kind) (hv : v.HasKind W kind) :
    Ensures W.toGround (setCell id v) m fun _ m' => At W S m' ∧ m'.calls = m.calls := by
  have hassign : ∀ {slot s}, slot? S slot = some s → v.Fills W s →
      Ensures W.toGround (setSlot slot v) m fun _ m' => At W S m' ∧ m'.calls = m.calls := by
    intro slot s hslot hfills
    unfold Ensures setSlot
    rw [if_pos (by rw [m.size_stack, h.length_values]; exact lt_length_of_slot? hslot)]
    exact ⟨h.assigned hslot hfills, rfl⟩
  refine Ensures.bind_heap ?_
  split
  · next slot hcell =>
    by_cases hnew : W.stale.length ≤ id.index
    · exact hassign (h.opened hid hnew hcell) hv
    · have hstale := h.not_trusted hid hnew hcell
      by_cases hlt : slot < S.length
      · obtain ⟨s, hs⟩ := exists_slot? hlt
        exact hassign hs (.any hstale (hv.ok_of_stale hstale))
      · unfold Ensures setSlot
        rw [if_neg (by rw [m.size_stack, h.length_values]; exact hlt)]
        exact ⟨fun htrusted => absurd htrusted hstale, h.survives⟩
  · next old hcell =>
    have hget := h.heap.getElem?_cells hid
    rw [hcell] at hget
    have hslot : m.heap.slots[id.index]? = some none := by
      rw [Heap.slots, List.getElem?_map, Array.getElem?_toList, hget]
      rfl
    refine ⟨⟨h.heap.setCell hid hv (.inr hslot), h.globals, h.values, fun id' hid' => ?_,
      fun i slot hnew hi => ?_⟩, rfl⟩
    · obtain ⟨hthis, slot, hopen⟩ := h.cells.known id' hid'
      refine ⟨hthis, slot, ?_⟩
      show (m.heap.cells.setIfInBounds id.index (.closed v))[id'.index]? = _
      rw [Array.getElem?_setIfInBounds_ne, hopen]
      intro heq
      rw [heq, hopen] at hget
      simp at hget
    · refine h.cells.opened i slot hnew ?_
      have hi : (m.heap.cells.setIfInBounds id.index (.closed v))[i]? = some (.openAt slot) := hi
      rw [Array.getElem?_setIfInBounds] at hi
      split at hi
      · split at hi <;> simp at hi
      · exact hi

end Exec

/-! ## Closing cells -/

/-- A cell that has taken over the value of its slot. -/
def Cell.close (stack : Stack Value stackLimit) : Cell → Cell
  | .openAt slot => .closed (stack.items.getD slot .nil)
  | .closed v => .closed v

theorem Cell.close_close (stack : Stack Value stackLimit) (cell : Cell) :
    (cell.close stack).close stack = cell.close stack := by
  cases cell <;> rfl

namespace Machine

variable {W : World} {X S : Shape} {m : Machine} {heap : Heap} {id : CellId} {ids : List CellId}
  {stack : Stack Value stackLimit}

theorem closeCell_of_open {slot : Nat} (h : heap.cell id = .openAt slot) :
    closeCell stack heap id = heap.setCell id (.closed (stack.items.getD slot .nil)) := by
  rw [closeCell, h]
  rfl

theorem closeCell_of_closed {v : Value} (h : heap.cell id = .closed v) :
    closeCell stack heap id = heap := by
  rw [closeCell, h]
  rfl

/-- Closing a cell changes that cell only. -/
theorem getElem?_closeCell (stack : Stack Value stackLimit) (heap : Heap) (id : CellId) (i : Nat) :
    (closeCell stack heap id).cells[i]?
      = (heap.cells[i]?).map fun cell => if id.index = i then cell.close stack else cell := by
  by_cases hi : id.index = i
  · subst hi
    cases hget : heap.cells[id.index]? with
    | none =>
      -- A reference to no cell reads as open, but then nothing is replaced.
      have hcell : heap.cell id = .openAt default := by
        rw [Heap.cell, Array.getD_eq_getD_getElem?, hget]
        rfl
      have hsize := Array.getElem?_eq_none_iff.1 hget
      rw [closeCell_of_open hcell, Heap.setCell, Array.setIfInBounds_eq_of_size_le hsize, hget]
      rfl
    | some cell =>
      have hcell : heap.cell id = cell := by
        rw [Heap.cell, Array.getD_eq_getD_getElem?, hget]
        rfl
      have hlt := (Array.getElem?_eq_some_iff.1 hget).1
      cases cell with
      | closed v =>
        rw [closeCell_of_closed hcell, hget]
        simp [Cell.close]
      | openAt slot =>
        rw [closeCell_of_open hcell, Heap.setCell, Array.getElem?_setIfInBounds_self_of_lt hlt]
        simp [Cell.close]
  · simp only [if_neg hi, Option.map_id']
    cases hcell : heap.cell id with
    | closed v => rw [closeCell_of_closed hcell]
    | openAt slot =>
      rw [closeCell_of_open hcell, Heap.setCell, Array.getElem?_setIfInBounds_ne hi]

/-- Closing cells changes those cells only. -/
theorem getElem?_closeAll (stack : Stack Value stackLimit) (heap : Heap) (ids : List CellId)
    (i : Nat) :
    (ids.foldl (closeCell stack) heap).cells[i]?
      = (heap.cells[i]?).map fun cell => if ⟨i⟩ ∈ ids then cell.close stack else cell := by
  induction ids generalizing heap with
  | nil => simp
  | cons id rest ih =>
    rw [List.foldl_cons, ih, getElem?_closeCell, Option.map_map]
    congr 1
    funext cell
    have hid : id.index = i ↔ (⟨i⟩ : CellId) = id := by
      cases id
      simp [eq_comm]
    by_cases hhead : (⟨i⟩ : CellId) = id
    · simp [hid, hhead, Cell.close_close]
    · by_cases hrest : (⟨i⟩ : CellId) ∈ rest <;> simp [hid, hhead, hrest]

/-- The open cells of a heap are among those of a machine. -/
def OpenIn (m : Machine) (heap : Heap) : Prop :=
  ∀ i slot : Nat, heap.cells[i]? = some (.openAt slot) → m.heap.cells[i]? = some (.openAt slot)

/-- A cell of this run is closed with a value for its use. -/
theorem closeCell_ok (h : At W S m) (hheap : heap.Ok W) (hopen : m.OpenIn heap)
    (hnew : W.stale.length ≤ id.index) : (closeCell m.stack heap id).Ok W := by
  cases hcell : heap.cell id with
  | closed v =>
    rw [closeCell_of_closed hcell]
    exact hheap
  | openAt slot =>
    rw [closeCell_of_open hcell]
    rcases Nat.lt_or_ge id.index heap.cells.size with hlt | hge
    · have hget : heap.cells[id.index]? = some (.openAt slot) := by
        rw [← hcell, Heap.cell, Array.getD_eq_getD_getElem?, Array.getElem?_eq_getElem hlt,
          Option.getD_some]
      obtain ⟨-, kind, hkind, hslot⟩ := h.cells.opened _ _ hnew (hopen _ _ hget)
      obtain ⟨v, hv, hfills⟩ := h.slot hslot
      have hvalue : m.stack.items.getD slot .nil = v := by
        rw [Array.getD_eq_getD_getElem?, ← Stack.slot?_down]
        exact congrArg (Option.getD · _) hv
      exact hheap.setCell hkind (hvalue ▸ hfills) (.inl hnew)
    · rw [Heap.setCell, Array.setIfInBounds_eq_of_size_le hge]
      exact hheap

/-- Cells of this run are closed one after the other. -/
theorem closeAll_ok (h : At W S m) (hheap : heap.Ok W) (hopen : m.OpenIn heap)
    (hnew : ∀ id ∈ ids, W.stale.length ≤ CellId.index id) :
    (ids.foldl (closeCell m.stack) heap).Ok W := by
  induction ids generalizing heap with
  | nil => exact hheap
  | cons id rest ih =>
    refine ih (closeCell_ok h hheap hopen (hnew id List.mem_cons_self)) (fun i slot hi => ?_)
      fun id' hid' => hnew id' (List.mem_cons_of_mem id hid')
    rw [getElem?_closeCell] at hi
    obtain ⟨cell, hcell, hclose⟩ := Option.map_eq_some_iff.1 hi
    refine hopen i slot ?_
    rw [hcell]
    split at hclose
    · cases cell <;> simp [Cell.close] at hclose
    · rw [hclose]

/-- The cells that are closed with the slots above a bottom. -/
def closing (m : Machine) (bottom : Nat) : List CellId :=
  (m.openCells.partition (m.opensAbove bottom)).1

theorem mem_closing {bottom : Nat} :
    id ∈ m.closing bottom ↔ id ∈ m.openCells ∧ m.opensAbove bottom id = true := by
  rw [closing, List.partition_eq_filter_filter, List.mem_filter]

/-- A cell stays open if its slot is not above the bottom. -/
theorem mem_openCells_closeCells {bottom : Nat} :
    id ∈ (m.closeCells bottom).openCells ↔ id ∈ m.openCells ∧ m.opensAbove bottom id = false := by
  show id ∈ (m.openCells.partition (m.opensAbove bottom)).2 ↔ _
  rw [List.partition_eq_filter_filter, List.mem_filter]
  simp

/-- **Closing the cells of the upper slots** leaves no open cell of this run that stands for one of
them. -/
theorem closeCells_ok (h : At W (X ++ S) m) :
    (m.closeCells S.length).heap.Ok W ∧
      CellsAt W S (m.closeCells S.length).heap (m.closeCells S.length).openCells := by
  have hknown : ∀ id ∈ m.closing S.length, W.stale.length ≤ id.index := fun id hid =>
    (h.cells.known id (mem_closing.1 hid).1).1
  refine ⟨closeAll_ok h h.heap (fun _ _ hi => hi) hknown, fun id hid => ?_,
    fun i slot hnew hi => ?_⟩
  · obtain ⟨hmem, hbelow⟩ := mem_openCells_closeCells.1 hid
    obtain ⟨hthis, slot, hopen⟩ := h.cells.known id hmem
    refine ⟨hthis, slot, ?_⟩
    show ((m.closing S.length).foldl (closeCell m.stack) m.heap).cells[id.index]? = _
    rw [getElem?_closeAll, hopen, Option.map_some, if_neg]
    rw [mem_closing, hbelow]
    simp
  have hi : ((m.closing S.length).foldl (closeCell m.stack) m.heap).cells[i]? = _ := hi
  rw [getElem?_closeAll] at hi
  obtain ⟨cell, hcell, hclose⟩ := Option.map_eq_some_iff.1 hi
  split at hclose
  · cases cell <;> simp [Cell.close] at hclose
  · next hnotmem =>
    subst hclose
    obtain ⟨hmem, kind, hkind, hslot⟩ := h.cells.opened i slot hnew hcell
    -- The cell is not among the closed ones, so it stands for a lower slot.
    have hopen : (m.heap.cell ⟨i⟩).slot? = some slot := by
      rw [Heap.cell, Array.getD_eq_getD_getElem?, hcell]
      rfl
    have hbelow : m.opensAbove S.length ⟨i⟩ = false := by
      rw [mem_closing] at hnotmem
      simpa [hmem] using hnotmem
    have hlt : slot < S.length := by
      rw [opensAbove, hopen] at hbelow
      simpa using hbelow
    refine ⟨mem_openCells_closeCells.2 ⟨hmem, hbelow⟩, kind, hkind, ?_⟩
    rw [← hslot, slot?_append hlt]

/-- A machine whose upper slots have gone away with their cells. -/
theorem truncated_at (h : At W (X ++ S) m) :
    At W S { m.closeCells S.length with stack := m.stack.truncate S.length } := by
  obtain ⟨hheap, hcells⟩ := closeCells_ok h
  obtain ⟨above, below, hvalues, habove, hbelow⟩ := exists_append_of_forall₂ h.values
  refine ⟨hheap, h.globals, ?_, hcells⟩
  show List.Forall₂ _ (m.stack.truncate S.length).down S
  rw [Stack.down_truncate hvalues hbelow.length_eq.symm]
  exact hbelow

end Machine

/-! ## The cells of a new closure -/

/-- A machine that captures variables for a closure: its cells may stand for the slots of a larger
shape, in which the closure has its slot already. -/
structure Capturing (W : World) (S T : Shape) (m : Machine) : Prop where
  /-- The objects are as the world says. -/
  heap : m.heap.Ok W
  /-- The global variables hold values. -/
  globals : m.globals.All (Value.Ok W)
  /-- The slots hold values for their uses. -/
  values : List.Forall₂ (Value.Fills W) m.values S
  /-- The open cells stand for captured slots. -/
  cells : CellsAt W T m.heap m.openCells

/-- A machine between two instructions may start to capture variables. -/
theorem At.capturing {W : World} {S : Shape} {m : Machine} (h : At W S m) (s : Slot) :
    Capturing W S (s :: S) m where
  heap := h.heap
  globals := h.globals
  values := h.values
  cells := h.cells.imp fun _ _ hslot => slot?_append_of_some (X := [s]) hslot

/-- Cells are used as a list says. -/
abbrev World.Uses (W : World) (ids : List CellId) (kinds : List SlotKind) : Prop :=
  List.Forall₂ (fun id kind => W.cells[CellId.index id]? = some kind) ids kinds

theorem World.Uses.mono {W V : World} {ids : List CellId} {kinds : List SlotKind}
    (h : W.Uses ids kinds) (hle : W.Le V) : V.Uses ids kinds :=
  h.imp fun _ _ hk => getElem?_of_isPrefix hle.cells hk

/-- What capturing a variable leaves as it is. -/
structure Machine.Captures (m m' : Machine) : Prop where
  /-- The calls stay. -/
  frames : m'.frames = m.frames
  /-- The values on the stack stay. -/
  stack : m'.stack = m.stack
  /-- The functions stay. -/
  functions : m'.heap.functions = m.heap.functions
  /-- The closures stay. -/
  closures : m'.heap.closures = m.heap.closures
  /-- The classes stay. -/
  classes : m'.heap.classes = m.heap.classes

theorem Machine.Captures.functionOf {m m' : Machine} (h : m.Captures m') (id : ClosureId) :
    m'.heap.functionOf id = m.heap.functionOf id := by
  simp only [Heap.functionOf, Heap.function, Heap.closure, h.functions, h.closures]

namespace Exec

variable {W : World} {S T : Shape} {kind : SlotKind} {m : Machine} {slot : Nat}

/-- **Capturing a variable gives a cell for its slot**: the open one if there is one, and else a new
one. -/
theorem captureSlot_at (h : Capturing W S T m) (hslot : slot? T slot = some ⟨kind, true⟩) :
    Ensures W.toGround (captureSlot slot) m fun id m' => ∃ V, W.Le V ∧ V.toGround = W.toGround ∧
      Capturing V S T m' ∧ V.cells[id.index]? = some kind ∧ m.Captures m' := by
  unfold Ensures captureSlot
  cases hfind : m.openCells.find? fun id => (m.heap.cell id).slot? = some slot with
  | some id =>
    -- The open cell for the slot is shared, and its kind is that of the slot.
    obtain ⟨hthis, slot', hget⟩ := h.cells.known id (List.mem_of_find?_eq_some hfind)
    have hcell : m.heap.cell id = .openAt slot' := by
      rw [Heap.cell, Array.getD_eq_getD_getElem?, hget]
      rfl
    obtain rfl : slot' = slot := by
      simpa [hcell, Cell.slot?] using List.find?_some hfind
    obtain ⟨-, kind', hkind', hslot'⟩ := h.cells.opened _ _ hthis hget
    obtain rfl : kind' = kind := by simpa [hslot] using hslot'.symm
    exact ⟨W, .refl W, rfl, h, hkind', rfl, rfl, rfl, rfl, rfl⟩
  | none =>
    -- A new cell is numbered behind all others, so the world grows by its kind.
    have hsize : m.heap.cells.size = W.cells.length := by
      rw [← Array.length_toList, h.heap.cells.length_eq]
    have hnew : (W.withCell kind).cells[m.heap.cells.size]? = some kind := by
      rw [hsize]
      simp [World.withCell]
    have hstale : W.stale.length ≤ m.heap.cells.size := by
      have hlength := h.heap.stale.length_le
      rwa [Heap.slots, List.length_map, Array.length_toList] at hlength
    have hle := W.le_withCell kind
    refine ⟨W.withCell kind, hle, rfl, ⟨h.heap.newCell slot kind,
      h.globals.imp fun _ hv => hv.mono hle, h.values.imp fun _ _ hv => hv.mono hle,
      fun id hid => ?_, fun i slot' hthis hi => ?_⟩, hnew, rfl, rfl, rfl, rfl, rfl⟩
    · rcases List.mem_cons.1 hid with rfl | hid
      · exact ⟨hstale, slot, Array.getElem?_push_size⟩
      · obtain ⟨hthis, slot', hopen⟩ := h.cells.known id hid
        refine ⟨hthis, slot', ?_⟩
        show (m.heap.cells.push _)[id.index]? = _
        obtain ⟨hlt, hcell⟩ := Array.getElem?_eq_some_iff.1 hopen
        rw [Array.getElem?_push_lt hlt, hcell]
    · have hi : (m.heap.cells.push (.openAt slot))[i]? = some (.openAt slot') := hi
      rw [Array.getElem?_push] at hi
      split at hi
      · next hlast =>
        obtain rfl : slot = slot' := by simpa using hi
        subst hlast
        exact ⟨List.mem_cons_self, kind, hnew, hslot⟩
      · obtain ⟨hmem, kind', hkind', hslot'⟩ := h.cells.opened i slot' hthis hi
        exact ⟨List.mem_cons_of_mem _ hmem, kind', getElem?_of_isPrefix hle.cells hkind', hslot'⟩

/-- The cell of a captured variable of the function around. -/
theorem capturedCell_eq {around : Array CellId} {kinds : List SlotKind} {index : Nat}
    (haround : W.Uses around.toList kinds) (hkind : kinds[index]? = some kind) :
    ∃ id, capturedCell around index m = .ok id m ∧ W.cells[id.index]? = some kind := by
  obtain ⟨hlt, rfl⟩ := List.getElem?_eq_some_iff.1 hkind
  have hlt' : index < around.size := by
    rw [← Array.length_toList, haround.length_eq]
    exact hlt
  refine ⟨around[index], ?_, haround.get hlt' hlt⟩
  unfold capturedCell
  rw [Array.getElem?_eq_getElem hlt']
  rfl

/-- **The cells of a new closure** are those that its function expects. -/
theorem readCaptures_at {Γ : Env} {Y below : Shape} {captures : List Capture}
    {kinds done : List SlotKind} {f : Frame} {rest : List Frame} {around found : Array CellId}
    (hsupplies : List.Forall₂ (Γ.Supplies Y) captures kinds)
    (h : Capturing W S (Y ++ below) m) (hcalls : m.calls = f :: rest)
    (hbytes : ∀ {k byte}, (captureBytes captures)[k]? = some byte →
      (m.heap.functionOf f.closure).chunk.code[f.ip + k]? = some byte)
    (haround : W.Uses around.toList Γ.captures) (hfound : W.Uses found.toList done) :
    Ensures W.toGround (readCaptures below.length around found captures.length) m fun ids m' =>
      ∃ V, W.Le V ∧ V.toGround = W.toGround ∧ Capturing V S (Y ++ below) m' ∧
        V.Uses ids.toList (done ++ kinds) ∧
        m'.calls = { f with ip := f.ip + 2 * captures.length } :: rest ∧
        m'.values = m.values ∧ m'.heap.classes = m.heap.classes := by
  induction hsupplies generalizing W m f found done with
  | nil =>
    refine ⟨W, .refl W, rfl, h, ?_, hcalls, rfl, rfl⟩
    rw [List.append_nil]
    exact hfound
  | @cons c kind captures kinds hc _ ih =>
    have hfirst : (captureBytes (c :: captures))[0]? = some (if c.isLocal then 1 else 0) := rfl
    have hsecond : (captureBytes (c :: captures))[1]? = some c.index := rfl
    have horigin := hbytes hfirst
    have hindex := hbytes hsecond
    rw [List.length_cons, readCaptures]
    refine Ensures.bind_of_eq (readByte_eq_of_ip hcalls horigin) ?_
    refine Ensures.bind_of_eq (readByte_eq hcalls hindex) ?_
    have hmoved : Capturing W S (Y ++ below) (m.moveTo (f.ip + 1 + 1)) :=
      ⟨h.heap, h.globals, h.values, h.cells⟩
    -- Once the cell of this variable is found, the others follow.
    have hnext : ∀ id m' V, W.Le V → V.toGround = W.toGround → Capturing V S (Y ++ below) m' →
        V.cells[CellId.index id]? = some kind → (m.moveTo (f.ip + 1 + 1)).Captures m' →
        Ensures W.toGround (readCaptures below.length around (found.push id) captures.length) m'
          fun ids m'' => ∃ U, W.Le U ∧ U.toGround = W.toGround ∧ Capturing U S (Y ++ below) m'' ∧
            U.Uses ids.toList (done ++ kind :: kinds) ∧
            m''.calls = { f with ip := f.ip + 2 * (captures.length + 1) } :: rest ∧
            m''.values = m.values ∧ m''.heap.classes = m.heap.classes := by
      intro id m' V hle hstale hcapturing hid hsame
      have hcalls' : m'.calls = { f with ip := f.ip + 1 + 1 } :: rest := by
        rw [Machine.calls, hsame.frames]
        exact Machine.calls_moveTo hcalls (f.ip + 1 + 1)
      have hfound' : V.Uses (found.push id).toList (done ++ [kind]) := by
        rw [Array.toList_push]
        exact List.rel_append (hfound.mono hle) (.cons hid .nil)
      rw [← hstale]
      refine (ih hcapturing hcalls' ?_ (haround.mono hle) hfound').imp ?_
      · intro k byte hk
        rw [hsame.functionOf]
        have hbyte := hbytes (k := k + 2) hk
        rwa [show f.ip + (k + 2) = f.ip + 1 + 1 + k by omega] at hbyte
      · rintro ids m'' ⟨U, hle', hstale', hcapturing', huses, hcalls'', hvalues, hclasses⟩
        refine ⟨U, hle.trans hle', hstale', hcapturing', by simpa using huses, ?_, ?_, ?_⟩
        · rw [hcalls'', show f.ip + 1 + 1 + 2 * captures.length =
            f.ip + 2 * (captures.length + 1) by omega]
        · exact hvalues.trans (congrArg Stack.down hsame.stack)
        · exact hclasses.trans hsame.classes
    unfold Env.Supplies at hc
    split at hc
    · next hlocal =>
      have hslot := slot?_append_right Y below c.index.toNat
      rw [hc] at hslot
      simp only [hlocal, if_true]
      refine (captureSlot_at hmoved hslot).bind ?_
      rintro id m' ⟨V, hle, hstale, hcapturing, hid, hsame⟩
      exact hnext id m' V hle hstale hcapturing hid hsame
    · next hlocal =>
      obtain ⟨id, heq, hid⟩ := capturedCell_eq (m := m.moveTo (f.ip + 1 + 1)) haround hc
      simp only [hlocal, Bool.false_eq_true, if_false, show (0 : UInt8) ≠ 1 by decide]
      refine Ensures.bind_of_eq heq ?_
      exact hnext id _ W (.refl W) rfl hmoved hid ⟨rfl, rfl, rfl, rfl, rfl⟩

end Exec

end ScriptVM
