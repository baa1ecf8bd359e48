/-
# Closures and classes of running machines

What the instructions do that make closures and classes.  A new class is held by one variable only,
so any other variable that is read as its superclass holds another value; when the class has been
read as well, both are on the stack and differ (`RunsAt.choose`, `RunsAt.pair`).  Then the class is
read once more and given its members one by one (`RunsAt.hold`, `RunsAt.addMember`).
-/
import ScriptVM.Proofs.Machine.Steps

namespace ScriptVM

/-! ## References to classes -/

/-- A class that is a value is one of the world. -/
theorem Value.Ok.lt_classes {W : World} {id : ClassId} (h : Ok W (.classRef id)) :
    id.index < W.classes := by
  cases h with
  | plain h => exact absurd h (by simp [isPlain])
  | classRef h => exact h

/-- A class that is a value for some use is one of the world. -/
theorem Value.HasKind.lt_classes {W : World} {kind : SlotKind} {id : ClassId}
    (h : HasKind W (.classRef id) kind) : id.index < W.classes := by
  cases h with
  | value h => exact h.lt_classes
  | callee h => exact h.lt_classes
  | parent h => exact h
  | any _ h => exact h.lt_classes

theorem At.lt_classes {W : World} {S : Shape} {m : Machine} {j : Nat} {id : ClassId} (h : At W S m)
    (hj : slot? m.values j = some (.classRef id)) : id.index < W.classes := by
  obtain ⟨s, -, hfills⟩ := exists_slot?_of_forall₂ h.values hj
  exact hfills.lt_classes

section

variable {base : Nat} {m : Machine} {f : Frame} {home : Home} {id : ClassId} {op : Opcode}
  {i : UInt8} {v : Value} {W : World} {bp : Blueprint}

/-- Reading the variable in which a class is kept gives the class. -/
theorem Home.Holds.eq_of_reading (h : home.Holds base m.values m.globals id)
    (hbase : f.slots = base)
    (hreading : Reading m f op i v) (hread : home.ReadBy (.of W m f bp) op i) :
    v = .classRef id := by
  cases home with
  | global name =>
    obtain ⟨rfl, hname⟩ := hread
    cases hreading with
    | fromGlobal hname' hv =>
      obtain rfl : _ = name := Value.string.inj (Option.some.inj (hname'.symm.trans hname))
      exact Option.some.inj (hv.symm.trans h)
  | slot j =>
    obtain ⟨rfl, rfl⟩ := hread
    cases hreading with
    | fromSlot hv =>
      rw [hbase] at hv
      exact Option.some.inj (hv.symm.trans h)

/-- Reading another variable than the one in which a new class is kept gives another value. -/
theorem Home.Alone.ne_of_reading (h : home.Alone base m id) (hbase : f.slots = base)
    (hreading : Reading m f op i v) (havoided : home.AvoidedBy (.of W m f bp) op i) :
    v ≠ .classRef id := by
  rintro rfl
  cases hreading with
  | fromSlot hv =>
    obtain ⟨j, rfl, hj⟩ := h.slots _ hv
    exact havoided rfl (by omega)
  | fromCell hid hholds => exact h.cells _ hid hholds
  | fromGlobal hname hv =>
    obtain rfl := h.globals _ hv
    obtain ⟨other, hother, hne⟩ := havoided rfl
    exact hne (Value.string.inj (Option.some.inj (hother.symm.trans hname)))

/-- What is read from the variable in which a class is kept can be used as a class. -/
theorem Reading.parent {k : SlotKind} (hreading : Reading m f op i v) (hv : v.HasKind W k)
    (hread : home.ReadBy (.of W m f bp) op i) (hbase : f.slots = base)
    (hholds : home.Holds base m.values m.globals id) : v.HasKind W .parent := by
  obtain rfl := hholds.eq_of_reading hbase hreading hread
  exact .parent hv.lt_classes

end

namespace RunsAt

open Exec

variable {W : World} {m : Machine} {f : Frame} {rest : List Frame} {bp : Blueprint}
  {X below : Shape} {st : Stage} {op : Opcode} {i c : UInt8} {k : SlotKind} {home : Home}
  {name : String}

/-! ## Closures -/

/-- **A closure is made**, with the cells that its function expects. -/
theorem makeClosure {id : FunctionId} {g : Blueprint} {captures : List Capture} {captured : Bool}
    (h : RunsAt W m f rest bp X below st)
    (hbytes : ∀ {k byte}, (c :: captureBytes captures)[k]? = some byte →
      (chunkOf m f).code[f.ip + 1 + k]? = some byte)
    (hconstant : (chunkOf m f).constants[c.toNat]? = some (.functionRef id))
    (hg : W.blueprints[id.index]? = some g)
    (hsupplies : List.Forall₂ ((Env.of W m f bp).Supplies
      (⟨g.closureKind, captured⟩ :: X ++ [bp.receiver])) captures g.captures)
    (hreaches : Reaches (bp.marks.point? none) (f.ip + 2 + 2 * captures.length)
      ⟨⟨g.closureKind, captured⟩ :: X, st.withClosure g.initializes⟩) :
    Ensures W.toGround Exec.makeClosure (m.moveTo (f.ip + 1))
      fun _ m' => m'.RunsOn W.toGround (st.withClosure g.initializes) := by
  -- The index of the function is the first byte behind the instruction, and the captures are the
  -- others.
  have hindex : (chunkOf m f).code[f.ip + 1]? = some c := hbytes (k := 0) rfl
  have hcount : captures.length = (m.heap.function id).captureCount :=
    hsupplies.length_eq.trans (TableFits.function m.heap h.typed.heap.table hg).2.captures
  have hshape : (⟨g.closureKind, captured⟩ :: X ++ [bp.receiver]) ++ below
      = ⟨g.closureKind, captured⟩ :: (X ++ bp.receiver :: below) := by simp
  have hcapturing := (h.typed.moveTo (f.ip + 2)).capturing ⟨g.closureKind, captured⟩
  rw [← hshape] at hcapturing
  refine Ensures.bind_of_eq (readConstant_eq h.calls hindex hconstant) ?_
  refine Ensures.bind_of_eq (frame_eq (Machine.calls_moveTo h.calls (f.ip + 2))) ?_
  refine Ensures.bind_heap (Ensures.bind_heap ?_)
  dsimp only
  rw [h.slots, show ((m.moveTo (f.ip + 2)).heap.function id).captureCount = captures.length
    from hcount.symm]
  -- The cells are read under the shape that has the closure itself on top: a function that captures
  -- its own name captures the slot it is about to fill.
  refine (readCaptures_at hsupplies hcapturing (Machine.calls_moveTo h.calls (f.ip + 2)) ?_
    (h.typed.heap.closure h.function).captures .nil).bind ?_
  · intro j byte hj
    have hbyte := hbytes (k := j + 1) hj
    rwa [show f.ip + 1 + (j + 1) = f.ip + 2 + j by omega] at hbyte
  · rintro ids m₁ ⟨V, hle, hstale, hcapturing, huses, hcalls, hvalues, hclasses⟩
    rw [hshape] at hcapturing
    have hclosure : Closure.Ok V ⟨id, ids⟩ g := ⟨getElem?_of_isPrefix hle.blueprints hg, huses⟩
    have hle' := V.le_withClosure g
    have hnew : (V.withClosure g).closures[m₁.heap.closures.size]? = some g := by
      rw [← Array.length_toList, hcapturing.heap.closures.length_eq]
      simp [World.withClosure]
    refine Ensures.bind_of_eq (show allocate (·.newClosure ⟨id, ids⟩) m₁ = .ok
      ⟨m₁.heap.closures.size⟩ { m₁ with heap := (m₁.heap.newClosure ⟨id, ids⟩).2 } from rfl) ?_
    have hsurvives : Machine.Survives W.toGround
        { m₁ with heap := (m₁.heap.newClosure ⟨id, ids⟩).2 } :=
      ⟨V.withClosure g, hstale, hcapturing.heap.newClosure hclosure,
        hcapturing.globals.imp fun _ hv => hv.mono hle'⟩
    refine (ensures_push hsurvives _).imp fun _ m₂ hp => ?_
    have hfills : (Value.closureRef ⟨m₁.heap.closures.size⟩).Fills (V.withClosure g)
        ⟨g.closureKind, captured⟩ := by
      show Value.HasKind _ _ g.closureKind
      unfold Blueprint.closureKind
      split
      · exact .member ⟨g, hnew⟩
      · next hmember => exact .value (.closure hnew fun _ => by simpa using hmember)
    have hheap : m₂.heap.Ok (V.withClosure g) := hp.heap ▸ hcapturing.heap.newClosure hclosure
    -- What is left is that the machine is typed with the new slot, that the calls are untouched,
    -- and that the stage of the class is kept.
    refine h.runsOn (hle.trans hle') hstale (Y := ⟨g.closureKind, captured⟩ :: X) ?_ ?_ hreaches
      ?_
    · exact {
        heap := hheap
        globals := hp.globals ▸ hcapturing.globals.imp fun _ hv => hv.mono hle'
        values := hp.values ▸ .cons hfills (hcapturing.values.imp fun _ _ hv => hv.mono hle')
        cells := by
          rw [hp.heap, hp.openCells]
          exact ⟨hcapturing.cells.known, hcapturing.cells.opened⟩ }
    · rw [hp.calls, Machine.calls_moveTo h.calls]
      exact hcalls
    · refine h.stage.withClosure (hp.values.trans (congrArg _ hvalues)) ?_ fun hinit => ?_
      · rw [hp.heap]
        exact hclasses
      · rw [(hheap.functionOf hnew).initializer] at hinit
        exact of_decide_eq_true hinit

/-! ## Classes -/

/-- **A class is made**, and only the slot on top holds it. -/
theorem makeClass (h : RunsAt W m f rest bp X below st)
    (hbyte : (chunkOf m f).code[f.ip + 1]? = some c)
    (hname : (chunkOf m f).constants[c.toNat]? = some (.string name))
    (hreaches : Reaches (bp.marks.point? none) (f.ip + 2)
      ⟨.operand :: X, .fresh (.slot (X ++ [bp.receiver]).length)⟩) :
    Ensures W.toGround Exec.makeClass (m.moveTo (f.ip + 1))
      fun _ m' => m'.RunsOn W.toGround (.fresh (.slot (X ++ [bp.receiver]).length)) := by
  let made : Machine := { m.moveTo (f.ip + 2) with heap := (m.heap.newClass name).2 }
  have hsize := h.typed.heap.size_classes
  have hle := W.le_withClass
  have hmade : At W.withClass (X ++ bp.receiver :: below) made :=
    ⟨h.typed.heap.newClass name, h.typed.globals.imp fun _ hv => hv.mono hle,
      h.typed.values.imp fun _ _ hv => hv.mono hle, ⟨h.typed.cells.known, h.typed.cells.opened⟩⟩
  refine Ensures.bind_of_eq (readName_eq h.calls hbyte hname) ?_
  refine Ensures.bind_of_eq (show allocate (·.newClass name) (m.moveTo (f.ip + 2))
    = .ok ⟨m.heap.classes.size⟩ made from rfl) ?_
  refine (ensures_push hmade.survives (.classRef ⟨m.heap.classes.size⟩)).imp fun _ m' hp => ?_
  have hlength : m.values.length = below.length + (X ++ [bp.receiver]).length := by
    rw [h.typed.length_values]
    simp
    omega
  -- No value that was there before refers to the new class.
  have hold : ∀ {j}, slot? m.values j ≠ some (.classRef ⟨m.heap.classes.size⟩) := fun hj => by
    have hlt : m.heap.classes.size < W.classes := h.typed.lt_classes hj
    omega
  have hvalues : m'.values = .classRef ⟨m.heap.classes.size⟩ :: m.values := hp.values
  refine h.runsOn hle rfl (Y := .operand :: X) (hmade.pushed hp (.value (.classRef ?_))) ?_
    hreaches ⟨⟨m.heap.classes.size⟩, ?_, ?_, fun htrusted => ⟨?_, ?_, ?_⟩⟩
  · show m.heap.classes.size < W.classes + 1
    omega
  · rw [hp.calls]
    rfl
  · rw [hp.heap]
    exact m.heap.blank_newClass name
  · show slot? m'.values _ = _
    rw [hvalues, ← hlength, slot?_cons_length]
  · intro j hj
    rw [hvalues, slot?] at hj
    split at hj
    · next hj' => exact ⟨_, rfl, hj'.symm.trans hlength⟩
    · exact absurd hj hold
  · intro name' hname'
    rw [hp.globals] at hname'
    have hlt : m.heap.classes.size < W.classes :=
      (Value.HasKind.value (h.typed.globals _ _ hname')).lt_classes
    omega
  · intro cell hcell hholds
    rw [hp.heap] at hcell
    have hcell : cell.index < m.heap.cells.size := hcell
    have hget : m.heap.cells[cell.index]? = some (m.heap.cell cell) := by
      rw [Heap.cell, Array.getD_eq_getD_getElem?, Array.getElem?_eq_getElem hcell, Option.getD_some]
    cases hholds with
    | @opened slot hopen hslot =>
      rw [hp.heap] at hopen
      have hopen : m.heap.cell cell = .openAt slot := hopen
      rw [hopen] at hget
      obtain ⟨-, kind, -, hshape⟩ :=
        h.typed.cells.opened _ _ (h.typed.heap.stale_le htrusted hget) hget
      have hlt : slot < m.values.length := by
        rw [h.typed.length_values]
        exact lt_length_of_slot? hshape
      rw [hvalues, slot?, if_neg (by omega)] at hslot
      exact hold hslot
    | closed hclosed =>
      rw [hp.heap] at hclosed
      have hclosed : m.heap.cell cell = .closed _ := hclosed
      have hlt : cell.index < W.cells.length := by
        rw [← h.typed.heap.cells.length_eq]
        exact hcell
      have hlt' : m.heap.classes.size < W.classes :=
        (h.typed.heap.closed (List.getElem?_eq_getElem hlt) hclosed).lt_classes
      omega

/-- A new class moves from the stack to a global variable, and only that holds it. -/
theorem defineClass
    (h : RunsAt W m f rest bp (.operand :: X) below (.fresh (.slot (X ++ [bp.receiver]).length)))
    (hbyte : (chunkOf m f).code[f.ip + 1]? = some c)
    (hname : (chunkOf m f).constants[c.toNat]? = some (.string name))
    (hreaches : Reaches (bp.marks.point? none) (f.ip + 2) ⟨X, .fresh (.global name)⟩) :
    Ensures W.toGround Exec.defineGlobal (m.moveTo (f.ip + 1))
      fun _ m' => m'.RunsOn W.toGround (.fresh (.global name)) := by
  obtain ⟨v, values, -, hrest, hvalues⟩ := List.forall₂_cons_right_iff.1 h.typed.values
  refine Ensures.bind_of_eq (readName_eq h.calls hbyte hname) ?_
  refine (ensures_pop (m := m.moveTo (f.ip + 2)) hvalues).bind ?_
  rintro w m₁ ⟨hw, hp⟩
  rw [hw]
  have hvalues₁ : m₁.values = values := List.tail_eq_of_cons_eq (hp.values.symm.trans hvalues)
  obtain ⟨hclass, hat⟩ := (h.typed.moveTo (f.ip + 2)).popped rfl hp
  have hdefined : At W (X ++ bp.receiver :: below)
      { m₁ with globals := m₁.globals.insert name v } :=
    ⟨hat.heap, hat.globals.insert hclass.ok, hat.values, hat.cells⟩
  refine h.runsOn (.refl W) rfl hdefined hp.calls.symm hreaches ?_
  obtain ⟨id, hblank, hholds, halone⟩ := h.stage
  -- The class lies in the top slot and, while it is trusted, nowhere else. Popping it leaves no
  -- slot that holds it, and the new binding is the only other place.
  have hlength : values.length = below.length + (X ++ [bp.receiver]).length := by
    rw [hrest.length_eq]
    simp
    omega
  obtain rfl : v = .classRef id := by
    have hholds : slot? m.values _ = _ := hholds
    rw [hvalues, ← hlength, slot?_cons_length] at hholds
    exact Option.some.inj hholds
  have hheap : m₁.heap = m.heap := hp.heap.symm
  refine ⟨id, ?_, ?_, fun htrusted => ?_⟩
  · show m₁.heap.Blank id
    rw [hheap]
    exact hblank
  · show (m₁.globals.insert name (.classRef id)).get? name = _
    simp
  replace halone := halone htrusted
  have hnone : ∀ {j}, slot? values j ≠ some (.classRef id) := fun {j} hj => by
    have hslot := slot?_append_of_some (X := [Value.classRef id]) hj
    rw [List.singleton_append, ← hvalues] at hslot
    obtain ⟨i, hi, rfl⟩ := halone.slots j hslot
    have hlt := lt_length_of_slot? hj
    injection hi with hi
    omega
  refine ⟨?_, ?_, ?_⟩
  · intro j hj
    have hj : slot? m₁.values j = _ := hj
    rw [hvalues₁] at hj
    exact absurd hj hnone
  · intro name' hname'
    have hname' : (m₁.globals.insert name (.classRef id)).get? name' = _ := hname'
    rw [Bindings.get?_insert] at hname'
    split at hname'
    · next heq => rw [heq]
    · rw [← hp.globals] at hname'
      exact absurd (halone.globals _ hname') (by simp)
  · intro cell hcell hholds
    refine halone.cells cell (hheap ▸ hcell) ?_
    cases hholds with
    | @opened slot hopen hslot =>
      have hslot : slot? m₁.values slot = _ := hslot
      rw [hvalues₁] at hslot
      exact absurd hslot hnone
    | closed hclosed => exact .closed (hheap ▸ hclosed)

/-- The superclass is read from another variable than the new class. -/
theorem choose (h : RunsAt W m f rest bp X below (.fresh home))
    (hbyte : (chunkOf m f).code[f.ip + 1]? = some i)
    (hreads : Reads (.of W m f bp) (X ++ [bp.receiver]) op i k) (hk : k.Serves .value)
    (havoided : home.AvoidedBy (.of W m f bp) op i)
    (hreaches : Reaches (bp.marks.point? none) (f.ip + 2) ⟨.operand :: X, .chosen home⟩) :
    Ensures W.toGround (execute op) (m.moveTo (f.ip + 1))
      fun result m' => m'.ContinuesOn W.toGround (.chosen home) result := by
  obtain ⟨x, hx, hensures⟩ :=
    h.read hbyte hreads (Q := Machine.RunsOn W.toGround (.chosen home)) fun v m' hv hkind hp => by
    have hat := (h.typed.moveTo (f.ip + 2)).pushed (s := .operand) hp (hkind.serves hk)
    refine h.runsOn (.refl W) rfl (Y := .operand :: X) hat hp.calls hreaches ?_
    obtain ⟨id, hblank, hholds, halone⟩ := h.stage
    refine ⟨id, v, ?_, ?_, ?_, fun htrusted => ?_⟩
    · rw [hp.heap]
      exact hblank
    · rw [hp.values, hp.globals]
      exact hholds.push v
    · rw [hp.values]
      rfl
    · exact (halone htrusted).ne_of_reading h.slots hv havoided
  rw [hx]
  exact proceed_runsOn hensures

/-- The new class is read as well, and differs from the value below it. -/
theorem pair (h : RunsAt W m f rest bp (.operand :: X) below (.chosen home))
    (hbyte : (chunkOf m f).code[f.ip + 1]? = some i)
    (hreads : Reads (.of W m f bp) (.operand :: X ++ [bp.receiver]) op i k)
    (hread : home.ReadBy (.of W m f bp) op i)
    (hreaches : Reaches (bp.marks.point? none) (f.ip + 2)
      ⟨.temp .parent :: .operand :: X, .paired home⟩) :
    Ensures W.toGround (execute op) (m.moveTo (f.ip + 1))
      fun result m' => m'.ContinuesOn W.toGround (.paired home) result := by
  obtain ⟨v', values, -, -, hvalues⟩ := List.forall₂_cons_right_iff.1 h.typed.values
  obtain ⟨x, hx, hensures⟩ :=
    h.read hbyte hreads (Q := Machine.RunsOn W.toGround (.paired home)) fun w m' hw hkind hp => by
    obtain ⟨id, v, hblank, hholds, htop, hne⟩ := h.stage
    have hparent := hw.parent hkind hread h.slots hholds
    have hat := (h.typed.moveTo (f.ip + 2)).pushed (s := .temp .parent) hp hparent
    refine h.runsOn (.refl W) rfl (Y := .temp .parent :: .operand :: X) hat hp.calls hreaches ?_
    obtain rfl : v' = v := by
      rw [hvalues] at htop
      exact Option.some.inj htop
    obtain rfl := hholds.eq_of_reading h.slots hw hread
    refine ⟨id, v', values, ?_, ?_, ?_, hne⟩
    · rw [hp.heap]
      exact hblank
    · rw [hp.values]
      exact congrArg _ hvalues
    · rw [hp.globals, ← hvalues]
      exact hholds
  rw [hx]
  exact proceed_runsOn hensures

/-- The class at home is read to be given members. -/
theorem hold (h : RunsAt W m f rest bp X below st)
    (hbyte : (chunkOf m f).code[f.ip + 1]? = some i)
    (hreads : Reads (.of W m f bp) (X ++ [bp.receiver]) op i k)
    (hread : home.ReadBy (.of W m f bp) op i) {derived : Bool}
    (hst : st = if derived then .settled home else .fresh home)
    (hreaches : Reaches (bp.marks.point? none) (f.ip + 2) ⟨.temp .parent :: X, .held derived⟩) :
    Ensures W.toGround (execute op) (m.moveTo (f.ip + 1))
      fun result m' => m'.ContinuesOn W.toGround (.held derived) result := by
  obtain ⟨x, hx, hensures⟩ := h.read hbyte hreads
    (Q := Machine.RunsOn W.toGround (.held derived)) fun v m' hv hkind hp => by
    obtain ⟨id, hnewest, hholds⟩ := h.stage.home hst
    have hat := (h.typed.moveTo (f.ip + 2)).pushed (s := .temp .parent) hp
      (hv.parent hkind hread h.slots hholds)
    refine h.runsOn (.refl W) rfl (Y := .temp .parent :: X) hat hp.calls hreaches
      ⟨id, m.values, ?_, ?_⟩
    · rw [hp.heap]
      exact hnewest
    · rw [hp.values, hholds.eq_of_reading h.slots hv hread]
      rfl
  rw [hx]
  exact proceed_runsOn hensures

/-- The newest class is given a member. -/
theorem addMember {define : Heap → ClassId → String → ClosureId → Heap}
    {derived initializes : Bool}
    (h : RunsAt W m f rest bp (.temp .member :: .temp .parent :: X) below
      (.adding derived initializes))
    (hbyte : (chunkOf m f).code[f.ip + 1]? = some c)
    (hname : (chunkOf m f).constants[c.toNat]? = some (.string name))
    (hdefine : ∀ heap id member, heap.Ok W → W.Knows member →
      (initializes = true → W.Initializes member) → (define heap id name member).Ok W ∧
      (define heap id name member).cells = heap.cells)
    (hreaches : Reaches (bp.marks.point? none) (f.ip + 2) ⟨.temp .parent :: X, .held derived⟩) :
    Ensures W.toGround (Exec.addMember define) (m.moveTo (f.ip + 1))
      fun _ m' => m'.RunsOn W.toGround (.held derived) := by
  obtain ⟨member, id, values, hnewest, hvalues, hkind⟩ := h.stage
  have hat := h.typed.moveTo (f.ip + 2)
  have hmember : (Value.closureRef member).HasKind W .member := by
    have hall := hat.values
    rw [show (m.moveTo (f.ip + 2)).values = _ from hvalues] at hall
    exact (List.forall₂_cons.1 hall).1
  have hinit : initializes = true → W.Initializes member := fun hinit => by
    obtain ⟨g, hg⟩ := hmember.knows
    exact ⟨g, hg, (h.typed.heap.functionOf hg).initializer.trans (decide_eq_true (hkind hinit))⟩
  obtain ⟨hheap, hcells⟩ := hdefine m.heap id member hat.heap hmember.knows hinit
  refine Ensures.bind_of_eq (readName_eq h.calls hbyte hname) ?_
  refine Ensures.bind_of_eq (classMember_eq (m := m.moveTo (f.ip + 2)) hvalues) ?_
  refine Ensures.bind_modify ?_
  let changed : Machine := { m.moveTo (f.ip + 2) with heap := define m.heap id name member }
  have hchanged : At W (.temp .member :: .temp .parent :: X ++ bp.receiver :: below) changed :=
    ⟨hheap, hat.globals, hat.values, hat.cells.of_cells hcells⟩
  refine (ensures_pop (m := changed) hvalues).bind ?_
  rintro - m' ⟨-, hp⟩
  obtain ⟨-, hat'⟩ := hchanged.popped rfl hp
  refine h.runsOn (.refl W) rfl (Y := .temp .parent :: X) hat' hp.calls.symm hreaches
    ⟨id, values, ?_, List.tail_eq_of_cons_eq (hp.values.symm.trans hvalues)⟩
  rw [← hp.heap, Heap.Newest, hheap.size_classes, ← hat.heap.size_classes]
  exact hnewest

/-- A class inherits from the value below it, if that is a class. -/
theorem inherit (h : RunsAt W m f rest bp (.temp .parent :: .operand :: X) below (.paired home))
    (hreaches : Reaches (bp.marks.point? none) (f.ip + 1) ⟨.temp .parent :: X, .settled home⟩) :
    Ensures W.toGround Exec.inherit (m.moveTo (f.ip + 1))
      fun _ m' => m'.RunsOn W.toGround (.settled home) := by
  have hat := h.typed.moveTo (f.ip + 1)
  obtain ⟨top, _, htop, hrest, hvalues⟩ := List.forall₂_cons_right_iff.1 hat.values
  obtain ⟨second, values, hsecond, -, rfl⟩ := List.forall₂_cons_right_iff.1 hrest
  have hpeek : (m.moveTo (f.ip + 1)).values[1]? = some second := congrArg (·[1]?) hvalues
  refine Ensures.bind_of_eq (peek_eq (congrArg (·[0]?) hvalues)) ?_
  split
  · next subclass =>
    refine Ensures.bind_of_eq (peek_eq hpeek) ?_
    split
    · next superclass =>
      refine Ensures.bind_modify ?_
      let changed : Machine :=
        { m.moveTo (f.ip + 1) with heap := m.heap.inherit subclass superclass }
      have hchanged : At W (.temp .parent :: .operand :: (X ++ bp.receiver :: below)) changed :=
        ⟨hat.heap.inherit subclass superclass, hat.globals, hat.values,
          ⟨hat.cells.known, hat.cells.opened⟩⟩
      -- The value below is a class now, and is used as a parent from here on.
      have hchanged := hchanged.rekind (X := [.temp .parent]) rfl hpeek
        (.parent hsecond.lt_classes)
      refine (ensures_pop (m := changed) hvalues).bind ?_
      rintro - m' ⟨-, hp⟩
      obtain ⟨-, hat'⟩ := hchanged.popped rfl hp
      have hvalues' : m'.values = .classRef superclass :: values :=
        List.tail_eq_of_cons_eq (hp.values.symm.trans hvalues)
      refine h.runsOn (.refl W) rfl (Y := .temp .parent :: X) hat' hp.calls.symm hreaches ?_
      obtain ⟨id, v, values', hblank, hstage, hholds, -⟩ := h.stage
      obtain ⟨-, rfl, rfl⟩ : _ ∧ _ ∧ _ := by simpa using hstage.symm.trans hvalues
      refine ⟨id, ?_, ?_⟩
      · rw [← hp.heap, Heap.Newest, hchanged.heap.size_classes, ← hat.heap.size_classes]
        exact hblank.newest
      · rw [hvalues', ← hp.globals]
        exact hholds
    · exact Ensures.raise hat.survives
  · next hother =>
    -- On top there is a class, as long as no cell of an earlier run can have changed the slot.
    refine Ensures.defect (fun htrusted => ?_) hat.survives
    obtain ⟨id, hid⟩ := htop.class_of_trusted htrusted
    exact hother id hid

end RunsAt

end ScriptVM
