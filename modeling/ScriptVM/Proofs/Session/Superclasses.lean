/-
# Superclasses

Code that asks a superclass for a property finds the class in a captured variable.  The members of a
class capture it from the stack, where it is below the class while that is given its members, and
the functions in them capture what the function around them has captured.  Nothing assigns the
variable, so it is found there whenever such code is carried out, in this run or in a later one.

A `Lineage` says so from outside.  It follows a machine instruction by instruction, records what
each class has inherited from, and gives a closure the superclass of the class it is made for, or
else that of the closure whose code makes it.  It looks neither into variables nor into cells.

Main statement: `Session.Reached.bindsSuper`.
-/
import ScriptVM.Proofs.Machine.Hierarchy
import ScriptVM.Proofs.Machine.Invocation
import ScriptVM.Proofs.Session.Fixed
import ScriptVM.Proofs.Session.Lasting
import ScriptVM.Proofs.Session.Shielding

namespace ScriptVM

/-! ## Lineages -/

/-- What has been said about superclasses since a machine was new. -/
structure Lineage where
  /-- The class that a class has inherited from. -/
  superclass : ClassId → Option ClassId
  /-- The superclass of the innermost class that a closure is declared in. -/
  bound : ClosureId → Option ClassId

/-- The next instruction makes a closure that is to be a member of a class. -/
def Machine.makesMember (m : Machine) : Bool :=
  match m.frames.top? with
  | some f =>
    match (m.heap.functionOf f.closure).chunk.constants[m.operand 0]? with
    | some (.functionRef id) =>
      decide ((m.heap.function id).kind = .method ∨ (m.heap.function id).kind = .initializer)
    | _ => false
  | none => false

namespace Lineage

/-- Nothing has been said. -/
def empty : Lineage := ⟨fun _ => none, fun _ => none⟩

/-- A class inherits from another one. -/
def extend (G : Lineage) (id superclass : ClassId) : Lineage :=
  { G with superclass := fun other => if other = id then some superclass else G.superclass other }

/-- A closure is made in a class with a superclass, or without one. -/
def bind (G : Lineage) (id : ClosureId) (superclass : Option ClassId) : Lineage :=
  { G with bound := fun other => if other = id then superclass else G.bound other }

/-- The superclass of the innermost class around the closure that the next instruction makes: of the
class on top if the closure is a member, and else of the class around the code in progress. -/
def around (G : Lineage) (m : Machine) : Option ClassId :=
  if m.makesMember then
    match m.values with
    | .classRef id :: _ => G.superclass id
    | _ => none
  else m.frames.top?.bind fun f => G.bound f.closure

/-- The lineage behind the next instruction. -/
def after (G : Lineage) (m : Machine) : Lineage :=
  match m.opcode?, m.values with
  | some .inherit, .classRef id :: .classRef superclass :: _ => G.extend id superclass
  | some .closure, _ => G.bind ⟨m.heap.closures.size⟩ (G.around m)
  | _, _ => G

variable {G : Lineage} {m : Machine} {op : Opcode}

/-- Most instructions say nothing about superclasses. -/
theorem after_of_ne (hop : m.opcode? = some op) (hinherit : op ≠ .inherit)
    (hclosure : op ≠ .closure) :
    G.after m = G := by
  rw [after, hop]
  cases op <;> first | rfl | contradiction

theorem after_of_closure (hop : m.opcode? = some .closure) :
    G.after m = G.bind ⟨m.heap.closures.size⟩ (G.around m) := by
  rw [after, hop]

/-- The instruction that inherits names the class on top and the superclass below it. -/
theorem after_of_inherit {id superclass : ClassId} {values : List Value}
    (hop : m.opcode? = some .inherit)
    (hvalues : m.values = .classRef id :: .classRef superclass :: values) :
    G.after m = G.extend id superclass := by
  rw [after, hop, hvalues]

/-- What a closure is declared in does not change. -/
theorem bound_after {i : Nat} (h : i < m.heap.closures.size) :
    (G.after m).bound ⟨i⟩ = G.bound ⟨i⟩ := by
  unfold after
  split
  · rfl
  · refine if_neg fun heq => ?_
    obtain rfl : i = m.heap.closures.size := congrArg ClosureId.index heq
    exact Nat.lt_irrefl _ h
  · rfl

end Lineage

/-- The machines that a new one comes to, in runs of compiled sources that all return values, with
what has been said about superclasses on the way. -/
inductive Machine.Recalls (natives : List Native) : Machine → Lineage → Prop
  | new (sink : Sink) (now : Float) : Recalls natives (Machine.new natives sink now) .empty
  | step {m m' : Machine} {G : Lineage} {result : Option Value} (h : Recalls natives m G)
      (hstep : Exec.step m = .ok result m') : Recalls natives m' (G.after m)
  | pause {m : Machine} {G : Lineage} (h : Recalls natives m G) (pause : Pause) :
      Recalls natives (pause.apply m) G
  | launch {m m' : Machine} {G : Lineage} {source : String} {program : Program}
      (h : Recalls natives m G) (hcalls : m.calls = [])
      (hcompile : Program.compileAfter m.heap.functions source = .ok program)
      (hlaunch : (m.load program).launch program.main = .running m') : Recalls natives m' G

/-! ## Instructions -/

namespace Exec

variable {m m' : Machine} {v : Value} {values : List Value}

/-- The value on top is popped. -/
theorem pop_eq (h : m.values = v :: values) :
    ∃ m', pop m = .ok v m' ∧ m'.values = values ∧ m'.heap = m.heap ∧ m'.calls = m.calls := by
  refine ⟨{ m with stack := m.stack.dropTop }, ?_, ?_, rfl, rfl⟩
  · have htop : m.stack.top? = some v := by
      rw [Stack.top?_eq_head?]
      exact congrArg List.head? h
    unfold pop
    rw [htop]
  · show m.stack.dropTop.down = values
    rw [Stack.down_dropTop]
    exact congrArg List.tail h

theorem popClass_eq {id : ClassId} (h : m.values = .classRef id :: values) :
    ∃ m', popClass m = .ok id m' ∧ m'.values = values ∧ m'.heap = m.heap ∧ m'.calls = m.calls := by
  obtain ⟨m', hpop, hsame⟩ := pop_eq h
  exact ⟨m', bind_of_ok hpop, hsame⟩

/-- The class on top has inherited from the one below it. -/
theorem inherit_ok {id : ClassId} {u : Unit} (h : inherit m = .ok u m')
    (hvalues : m.values = .classRef id :: v :: values) :
    ∃ superclass, v = .classRef superclass ∧ m'.values = .classRef superclass :: values ∧
      m'.heap = m.heap.inherit id superclass := by
  have hsecond := ok_after (peek_eq (congrArg (·[0]?) hvalues)) h
  have hmatch := ok_after (peek_eq (congrArg (·[1]?) hvalues)) hsecond
  cases v with
  | classRef superclass =>
    let changed : Machine := { m with heap := m.heap.inherit id superclass }
    have hinherits : modifyHeap (·.inherit id superclass) m = .ok () changed := rfl
    have hdropped := ok_after hinherits hmatch
    obtain ⟨w, m₁, hpop, hpure⟩ := exists_of_bind_ok hdropped
    injection hpure with _ hm
    subst hm
    obtain ⟨hrest, hheap, -⟩ := pop_ok hpop
    have hrest : m.values = w :: m₁.values := hrest
    rw [hvalues] at hrest
    exact ⟨superclass, rfl, (List.cons.inj hrest).2.symm, hheap⟩
  | _ => cases hmatch

/-- The closure on top has been given to the class below it. -/
theorem addMember_ok {define : Heap → ClassId → String → ClosureId → Heap} {name : String}
    {id : ClassId} {member : ClosureId} {m₁ : Machine} {u : Unit}
    (h : addMember define m = .ok u m') (hname : readName m = .ok name m₁)
    (hvalues : m₁.values = .closureRef member :: .classRef id :: values) :
    m'.values = .classRef id :: values := by
  have hnamed := ok_after hname h
  have hmember := ok_after (classMember_eq hvalues) hnamed
  let changed : Machine := { m₁ with heap := define m₁.heap id name member }
  have hdefined : modifyHeap (define · id name member) m₁ = .ok () changed := rfl
  have hdropped := ok_after hdefined hmember
  obtain ⟨w, m₂, hpop, hpure⟩ := exists_of_bind_ok hdropped
  injection hpure with _ hm
  subst hm
  obtain ⟨hrest, -⟩ := pop_ok hpop
  have hrest : m₁.values = w :: m₂.values := hrest
  rw [hvalues] at hrest
  exact (List.cons.inj hrest).2.symm

end Exec

section

variable {Γ : Env} {S X : Shape} {points : Nat → Option Point} {next : Nat} {operands : List UInt8}
  {st : Stage}

/-- A property is read through the superclass that the function has captured. -/
theorem Leads.of_getSuper (h : Leads Γ S points next .getSuper operands ⟨X, st⟩) :
    ∃ c name Y, operands = [c] ∧ Γ.Names c name ∧ X = .temp .parent :: .temp .receiver :: Y ∧
      st = .bound := by
  cases h with
  | run hruns _ =>
    cases hruns with
    | push hop => exact absurd hop (by decide)
    | unary hop => exact absurd hop (by decide)
    | binary hop => exact absurd hop (by decide)
    | addMember hop _ _ => exact absurd hop (by decide)
    | read hreads _ => cases hreads
    | write hwrites => cases hwrites
    | choose hreads _ _ => cases hreads
    | pair hreads _ => cases hreads
    | hold hreads _ _ => cases hreads
    | getSuper hname => exact ⟨_, _, _, rfl, hname, rfl, rfl⟩

/-- A method is called through the superclass that the function has captured. -/
theorem Leads.of_invokeSuper (h : Leads Γ S points next .invokeSuper operands ⟨X, st⟩) :
    ∃ c n name Y, operands = [c, n] ∧ Γ.Names c name ∧
      X = .temp .parent :: (List.replicate n.toNat .operand ++ .temp .receiver :: Y) ∧
      st = .bound := by
  cases h with
  | run hruns _ =>
    cases hruns with
    | push hop => exact absurd hop (by decide)
    | unary hop => exact absurd hop (by decide)
    | binary hop => exact absurd hop (by decide)
    | addMember hop _ _ => exact absurd hop (by decide)
    | read hreads _ => cases hreads
    | write hwrites => cases hwrites
    | choose hreads _ _ => cases hreads
    | pair hreads _ => cases hreads
    | hold hreads _ _ => cases hreads
    | invokeSuper hname => exact ⟨_, _, _, _, rfl, hname, rfl, rfl⟩

end

/-! ## What a lineage says about a machine -/

/-- The values on top are a class and its superclass. -/
def Lineage.Shows (G : Lineage) (values : List Value) : Prop :=
  ∃ id superclass rest, values = .classRef id :: .classRef superclass :: rest ∧
    G.superclass id = some superclass

/-- What a lineage says at a stage of a declaration. -/
def Stage.Descends (G : Lineage) (m : Machine) : Stage → Prop
  | .settled _ => ∃ id superclass values, m.heap.Newest id ∧
      m.values = .classRef superclass :: values ∧ G.superclass id = some superclass
  | .held derived => derived = true → G.Shows m.values
  | .adding derived _ => (∃ closure id values,
    m.values = .closureRef closure :: .classRef id :: values ∧
      G.bound closure = G.superclass id) ∧ (derived = true → G.Shows m.values.tail)
  | .bound => ∃ f rest superclass values, m.calls = f :: rest ∧
      m.values = .classRef superclass :: values ∧ G.bound f.closure = some superclass
  | _ => True

/-- A superclass that a closure has captured is the one of the class it is declared in. -/
def Lineage.Captured (G : Lineage) (blueprints : List Blueprint) (m : Machine) : Prop :=
  ∀ (i k : Nat) (c : Closure) (bp : Blueprint) (cell : CellId), m.heap.closures[i]? = some c →
    blueprints[c.function.index]? = some bp → c.captures[k]? = some cell →
    bp.captures[k]? = some .parent →
    ∃ superclass, G.bound ⟨i⟩ = some superclass ∧ Exec.Holds m cell (.classRef superclass)

namespace RunsAt

variable {W : World} {L : Ledger} {G : Lineage} {m m' : Machine} {f : Frame} {rest : List Frame}
  {bp : Blueprint} {X below : Shape} {st : Stage} {result : Option Value} {cell : CellId} {k : Nat}
  {op : Opcode} {i : UInt8}

/-- The superclass that the closure in progress has captured. -/
theorem superclass_of_captured (h : RunsAt W m f rest bp X below st)
    (hG : G.Captured W.blueprints m)
    (hcell : (m.heap.closure f.closure).captures[k]? = some cell)
    (hkind : bp.captures[k]? = some .parent) :
    W.cells[cell.index]? = some .parent ∧
      ∃ superclass, G.bound f.closure = some superclass ∧
        Exec.Holds m cell (.classRef superclass) := by
  obtain ⟨c, hc, hok⟩ := h.typed.heap.exists_closure h.function
  have hclosure : m.heap.closure f.closure = c := by
    rw [Heap.closure, Array.getD_eq_getD_getElem?, hc, Option.getD_some]
  rw [hclosure] at hcell
  exact ⟨h.typed.heap.kind_of_captured hc hok.function hcell hkind,
    hG _ k c bp cell hc hok.function hcell hkind⟩

/-- The value that has been read is on top. -/
theorem reading_of_ok {kind : SlotKind} (h : RunsAt W m f rest bp X below st)
    (hbyte : (Exec.chunkOf m f).code[f.ip + 1]? = some i)
    (hreads : Reads (.of W m f bp) (X ++ [bp.receiver]) op i kind)
    (hexecute : Exec.execute op (m.moveTo (f.ip + 1)) = .ok result m') :
    ∃ v, Reading m f op i v ∧ (m.moveTo (f.ip + 2)).Pushed v m' := by
  obtain ⟨x, hx, hensures⟩ := h.read hbyte hreads
    (Q := fun m' => ∃ v, Reading m f op i v ∧ (m.moveTo (f.ip + 2)).Pushed v m')
    fun v m' hv _ hp => ⟨v, hv, hp⟩
  rw [hx] at hexecute
  rw [Exec.Ensures, Exec.proceed_ok hexecute] at hensures
  exact hensures

/-! ### Stages -/

/-- What the class inherits from is what was below it. -/
theorem descends_inherit {home : Home} (h : RunsAt W m f rest bp X below (.paired home))
    (hop : m.opcode? = some .inherit)
    (hexecute : Exec.execute .inherit (m.moveTo (f.ip + 1)) = .ok result m') :
    (Stage.settled home).Descends (G.after m) m' := by
  obtain ⟨id, v, values, hblank, hvalues, -, -⟩ := h.stage
  obtain ⟨superclass, rfl, hvalues', hheap⟩ := Exec.inherit_ok (Exec.proceed_ok hexecute) hvalues
  have hsize : m'.heap.classes.size = m.heap.classes.size := by
    rw [hheap]
    exact Array.size_modify
  rw [Lineage.after_of_inherit hop hvalues]
  refine ⟨id, superclass, values, ?_, hvalues', if_pos rfl⟩
  rw [Heap.Newest, hsize]
  exact hblank.newest

/-- The class is read above its superclass. -/
theorem descends_hold {kind : SlotKind} {home : Home} {derived : Bool}
    (h : RunsAt W m f rest bp X below st) (hG : st.Descends G m)
    (hbyte : (Exec.chunkOf m f).code[f.ip + 1]? = some i)
    (hreads : Reads (.of W m f bp) (X ++ [bp.receiver]) op i kind)
    (hread : home.ReadBy (.of W m f bp) op i)
    (hst : st = if derived then .settled home else .fresh home) (hop : m.opcode? = some op)
    (hexecute : Exec.execute op (m.moveTo (f.ip + 1)) = .ok result m') :
    (Stage.held derived).Descends (G.after m) m' := by
  rintro rfl
  obtain rfl : st = .settled home := hst
  have hafter : G.after m = G := by
    refine Lineage.after_of_ne hop ?_ ?_ <;>
      · rintro rfl
        cases hreads
  obtain ⟨v, hv, hpushed⟩ := h.reading_of_ok hbyte hreads hexecute
  obtain ⟨id, hnewest, hholds⟩ := h.stage
  obtain ⟨id', superclass, values, hnewest', hvalues, hsuperclass⟩ := hG
  obtain rfl : id = id' := ClassId.ext (Nat.succ.inj (hnewest.trans hnewest'.symm))
  obtain rfl := hholds.eq_of_reading h.slots hv hread
  rw [hafter]
  refine ⟨id, superclass, values, ?_, hsuperclass⟩
  rw [hpushed.values]
  exact congrArg _ hvalues

/-- The class keeps its place above its superclass when it has been given a member. -/
theorem descends_addMember {define : Heap → ClassId → String → ClosureId → Heap} {name : String}
    {derived initializes : Bool} (h : RunsAt W m f rest bp X below (.adding derived initializes))
    (hG : (Stage.adding derived initializes).Descends G m) (hmember : op ∈ Opcode.members)
    (hop : m.opcode? = some op)
    (hname : Exec.readName (m.moveTo (f.ip + 1)) = .ok name (m.moveTo (f.ip + 2)))
    (hx : Exec.execute op = Exec.proceed (Exec.addMember define))
    (hexecute : Exec.execute op (m.moveTo (f.ip + 1)) = .ok result m') :
    (Stage.held derived).Descends (G.after m) m' := by
  obtain ⟨closure, id, values, -, hvalues, -⟩ := h.stage
  rw [hx] at hexecute
  have hvalues' := Exec.addMember_ok (Exec.proceed_ok hexecute) hname hvalues
  have hafter : G.after m = G := by
    refine Lineage.after_of_ne hop ?_ ?_ <;>
      · rintro rfl
        exact absurd hmember (by decide)
  rw [hafter]
  intro hderived
  have hshows := hG.2 hderived
  rw [hvalues] at hshows
  rw [hvalues']
  exact hshows

/-- The superclass that the closure in progress has captured is read. -/
theorem descends_readSuper (h : RunsAt W m f rest bp X below st) (hG : G.Captured W.blueprints m)
    (hbyte : (Exec.chunkOf m f).code[f.ip + 1]? = some i)
    (hkind : bp.captures[i.toNat]? = some .parent)
    (hop : m.opcode? = some .getUpvalue)
    (hexecute : Exec.execute .getUpvalue (m.moveTo (f.ip + 1)) = .ok result m') :
    Stage.bound.Descends (G.after m) m' := by
  obtain ⟨cell, hcell, hread, -⟩ :=
    Exec.readCell_captures h.typed.heap h.calls h.function hbyte hkind
  obtain ⟨-, superclass, hbound, hholds⟩ := h.superclass_of_captured hG hcell hkind
  have hholds : Exec.Holds (m.moveTo (f.ip + 2)) cell (.classRef superclass) := hholds.congr rfl rfl
  have hgot := Exec.ok_after hread (Exec.proceed_ok (x := Exec.getCaptured) hexecute)
  have hpushed := Exec.push_ok (Exec.ok_after (Exec.getCell_of_holds hholds) hgot)
  rw [Lineage.after_of_ne hop (by simp) (by simp)]
  refine ⟨{ f with ip := f.ip + 2 }, rest, superclass, m.values, ?_, hpushed.values, hbound⟩
  rw [hpushed.calls]
  exact Machine.calls_moveTo h.calls _

end RunsAt

namespace Executes

variable {W : World} {L : Ledger} {G : Lineage} {m m' : Machine} {f : Frame} {rest : List Frame}
  {bp g : Blueprint} {X below Y : Shape} {st : Stage} {result : Option Value} {c : UInt8}
  {captures : List Capture} {function : FunctionId}

/-- Whether a closure is made for a member of a class. -/
theorem makesMember_eq
    (h : Executes W L m f rest bp X below st .closure (c :: captureBytes captures) result m')
    (hconstant : (Exec.chunkOf m f).constants[c.toNat]? = some (.functionRef function))
    (hg : W.blueprints[function.index]? = some g) : m.makesMember = g.isMember := by
  have hoperand : m.operand 0 = c.toNat := h.operand (k := 0) rfl
  have hconstant : (m.heap.functionOf f.closure).chunk.constants[c.toNat]?
      = some (.functionRef function) := hconstant
  have hfits := (h.runs.typed.heap.table.function m.heap hg).2
  simp only [Machine.makesMember, Machine.top?_of_calls h.runs.calls, hoperand, hconstant,
    ← hfits.member,
    Bool.decide_eq_true]

/-- A member is made for the class on top. -/
theorem around_of_member
    (h : Executes W L m f rest bp X below st .closure (c :: captureBytes captures) result m')
    (hconstant : (Exec.chunkOf m f).constants[c.toNat]? = some (.functionRef function))
    (hg : W.blueprints[function.index]? = some g) (hmember : g.isMember = true) {id : ClassId}
    {values : List Value} (hvalues : m.values = .classRef id :: values) :
    G.around m = G.superclass id := by
  rw [Lineage.around, h.makesMember_eq hconstant hg, if_pos hmember, hvalues]

/-- Another function is made in the class around the code in progress. -/
theorem around_of_nested
    (h : Executes W L m f rest bp X below st .closure (c :: captureBytes captures) result m')
    (hconstant : (Exec.chunkOf m f).constants[c.toNat]? = some (.functionRef function))
    (hg : W.blueprints[function.index]? = some g) (hmember : g.isMember = false) :
    G.around m = G.bound f.closure := by
  rw [Lineage.around, h.makesMember_eq hconstant hg, hmember, if_neg Bool.false_ne_true,
    Machine.top?_of_calls h.runs.calls]
  rfl

/-- A closure is made above the class that is to be given it. -/
theorem descends_closure
    (h : Executes W L m f rest bp X below st .closure (c :: captureBytes captures) result m')
    (hG : st.Descends G m)
    (hconstant : (Exec.chunkOf m f).constants[c.toNat]? = some (.functionRef function))
    (hg : W.blueprints[function.index]? = some g)
    (hsupplies : List.Forall₂ ((Env.of W m f bp).Supplies Y) captures g.captures)
    (hst : st.Makes g.isMember) (hcontinues : m'.Continues W.toGround result) :
    (st.withClosure g.initializes).Descends (G.after m) m' := by
  obtain ⟨-, ids, hvalues, -, -⟩ := h.of_closure hconstant hg hsupplies hcontinues
  cases hmember : g.isMember with
  | false =>
    rw [Stage.Makes, hmember, if_neg Bool.false_ne_true] at hst
    rw [hst]
    trivial
  | true =>
    rw [Stage.Makes, hmember, if_pos rfl] at hst
    obtain ⟨derived, rfl⟩ := hst
    obtain ⟨id, values, -, hclass⟩ := h.runs.stage
    rw [Lineage.after_of_closure h.opcode, h.around_of_member hconstant hg hmember hclass]
    refine ⟨⟨⟨m.heap.closures.size⟩, id, values, ?_, if_pos rfl⟩, fun hderived => ?_⟩
    · rw [hvalues, hclass]
    · rw [hvalues]
      exact hG hderived

/-- **A closure captures the superclass** of the class that it is made in. -/
theorem captured_closure
    (h : Executes W L m f rest bp X below st .closure (c :: captureBytes captures) result m')
    (hG : st.Descends G m) (hcaptured : G.Captured W.blueprints m)
    (hconstant : (Exec.chunkOf m f).constants[c.toNat]? = some (.functionRef function))
    (hg : W.blueprints[function.index]? = some g)
    (hsupplies : List.Forall₂ ((Env.of W m f bp).Supplies Y) captures g.captures)
    (hparents : ∀ (k : Nat) (capture : Capture), captures[k]? = some capture →
      g.captures[k]? = some .parent → capture.Inherits g.isMember st (X ++ [bp.receiver]).length)
    (hcontinues : m'.Continues W.toGround result) {k : Nat} {cell : CellId}
    (hcell : (m'.heap.closure ⟨m.heap.closures.size⟩).captures[k]? = some cell)
    (hkind : g.captures[k]? = some .parent) :
    ∃ superclass, (G.after m).bound ⟨m.heap.closures.size⟩ = some superclass ∧
      Exec.Holds m' cell (.classRef superclass) := by
  obtain ⟨hL', ids, hvalues, hclosures, horigins⟩ := h.of_closure hconstant hg hsupplies hcontinues
  rw [Heap.closure_of_push hclosures] at hcell
  rw [← Array.getElem?_toList] at hcell
  obtain ⟨capture, hcapture, horigin⟩ := exists_getElem?_of_forall₂ horigins hcell
  obtain ⟨capture', hcapture', hsupplied⟩ := exists_getElem?_of_forall₂ hsupplies hkind
  obtain rfl : capture = capture' := Option.some.inj (hcapture.symm.trans hcapture')
  have hinherits := hparents k capture hcapture hkind
  have hbound : (G.after m).bound ⟨m.heap.closures.size⟩ = G.around m := by
    rw [Lineage.after_of_closure h.opcode]
    exact if_pos rfl
  rw [hbound]
  cases hmember : g.isMember with
  | true =>
    -- The superclass is in the slot below the class on top.
    rw [Capture.Inherits, hmember, if_pos rfl] at hinherits
    obtain ⟨rfl, hlocal, hindex⟩ := hinherits
    obtain ⟨id, superclass, values, hclass, hsuperclass⟩ := hG rfl
    rw [h.around_of_member hconstant hg hmember hclass]
    refine ⟨superclass, hsuperclass, ?_⟩
    unfold Exec.Origin at horigin
    rw [if_pos hlocal] at horigin
    have hheight : f.slots + capture.index.toNat = values.length := by
      have hlength := h.runs.typed.length_values
      rw [hclass] at hlength
      simp only [List.length_cons, List.length_append, List.length_nil] at hlength hindex
      have hslots := h.runs.slots
      omega
    refine .opened (Heap.cell_of_getElem? horigin) ?_
    rw [hvalues, hclass, hheight]
    exact slot?_append_of_some (X := [_, _]) (slot?_cons_length _ _)
  | false =>
    -- The code in progress has captured it itself.
    rw [Capture.Inherits, hmember, if_neg Bool.false_ne_true] at hinherits
    rw [h.around_of_nested hconstant hg hmember]
    unfold Exec.Origin at horigin
    rw [if_neg (by simp [hinherits])] at horigin
    unfold Env.Supplies at hsupplied
    rw [if_neg (by simp [hinherits])] at hsupplied
    obtain ⟨hkept, superclass, hsuperclass, hholds⟩ :=
      h.runs.superclass_of_captured hcaptured horigin hsupplied
    exact ⟨superclass, hsuperclass,
      h.runs.holds_after h.trusted h.describes hL' hkept (by simp) hholds⟩

/-- **An instruction that goes on behind itself** comes to a stage where the lineage is right. -/
theorem descends_runs {op : Opcode} {operands : List UInt8} {q : Point}
    (h : Executes W L m f rest bp X below st op operands result m') (hG : st.Descends G m)
    (hcaptured : G.Captured W.blueprints m)
    (hruns : Runs (.of W m f bp) [bp.receiver] op operands ⟨X, st⟩ q)
    (hcontinues : m'.Continues W.toGround result) : q.stage.Descends (G.after m) m' := by
  cases hruns with
  | closure hc hg hst hsupplies _ => exact h.descends_closure hG hc hg hsupplies hst hcontinues
  | readSuper hkind =>
    exact h.runs.descends_readSuper hcaptured (h.bytes (k := 0) rfl) hkind h.opcode h.execute
  | addMember hop hname _ =>
    have hread := Exec.readName_eq h.runs.calls (h.bytes (k := 0) rfl) hname
    rcases List.mem_pair.1 hop with rfl | rfl
    · exact h.runs.descends_addMember hG hop h.opcode hread rfl h.execute
    · exact h.runs.descends_addMember hG hop h.opcode hread rfl h.execute
  | inherit => exact h.runs.descends_inherit h.opcode h.execute
  | hold hreads hhome hst =>
    exact h.runs.descends_hold hG (h.bytes (k := 0) rfl) hreads hhome hst h.opcode h.execute
  | _ => trivial

end Executes

/-! ## Steps -/

/-- A machine runs at a point where a lineage is right. -/
def Machine.RunsUnder (ground : Ground) (G : Lineage) (m : Machine) : Prop :=
  ∃ W f rest bp X below st, W.toGround = ground ∧ RunsAt W m f rest bp X below st ∧ st.Descends G m

namespace RunsAt

variable {W : World} {L : Ledger} {G : Lineage} {m m' : Machine} {f : Frame} {rest : List Frame}
  {bp : Blueprint} {X below : Shape} {st : Stage} {result : Option Value}

/-- **One step** keeps the superclasses that closures have captured, and a new closure captures the
right one. -/
theorem captured_step (h : RunsAt W m f rest bp X below st) (htrusted : Trusted W.stale)
    (hL : L.Describes m) (hG : st.Descends G m) (hcaptured : G.Captured W.blueprints m)
    (hstep : Exec.step m = .ok result m') : (G.after m).Captured W.blueprints m' := by
  have hrunning : m.Running W.toGround := ⟨W, f, rest, bp, X, below, st, rfl, h⟩
  have hcontinues := step_continues hrunning
  rw [Exec.Ensures, hstep] at hcontinues
  intro i k c g cell hc hg hcell hkind
  rcases Nat.lt_or_ge i m.heap.closures.size with hlt | hge
  · -- A closure that was there keeps its cells, and no step writes the cell of a superclass.
    have hkept := Exec.isPrefix_closures_step m
    rw [Exec.after_of_ok hstep] at hkept
    have hold : m.heap.closures[i]? = some c := by
      have hget := getElem?_of_isPrefix hkept
        (Array.getElem?_toList.trans (Array.getElem?_eq_getElem hlt))
      rw [Array.getElem?_toList, hc] at hget
      rw [Array.getElem?_eq_getElem hlt, hget]
    obtain ⟨superclass, hbound, hholds⟩ := hcaptured i k c g cell hold hg hcell hkind
    have hused := h.typed.heap.kind_of_captured hold hg hcell hkind
    exact ⟨superclass, (Lineage.bound_after hlt).trans hbound,
      h.holds_after htrusted hL (hL.after hrunning htrusted hstep) hused (by simp) hholds⟩
  · -- A closure that was not there has just been made, which only one instruction does.
    obtain ⟨op, operands, next, hexecutes, hleads⟩ := h.executes htrusted hL hstep
    by_cases hop : op = .closure
    · subst hop
      obtain ⟨b, captures, function, g', Y, rfl, hconstant, hg', hsupplies, -, hparents⟩ :=
        hleads.closes
      obtain ⟨-, ids, -, hclosures, -⟩ :=
        hexecutes.of_closure hconstant hg' hsupplies hcontinues
      have hi : i = m.heap.closures.size := by
        have hlt := (Array.getElem?_eq_some_iff.1 hc).1
        rw [hclosures, Array.size_push] at hlt
        omega
      subst hi
      have hclosure := Heap.closure_of_push hclosures
      rw [hclosures, Array.getElem?_push_size] at hc
      obtain rfl := Option.some.inj hc
      obtain rfl : g' = g := Option.some.inj (hg'.symm.trans hg)
      refine hexecutes.captured_closure hG hcaptured hconstant hg' hsupplies hparents
        hcontinues ?_ hkind
      rw [hclosure]
      exact hcell
    · have hsame := Exec.closures_step (m := m) fun op' m₁ hread => by
        have hread := Machine.Running.opcode?_of_readOpcode hrunning hread
        exact Option.some.inj (hexecutes.opcode.symm.trans hread) ▸ hop
      rw [Exec.after_of_ok hstep] at hsame
      rw [hsame, Array.getElem?_eq_none hge] at hc
      cases hc

/-- **One step** of a declaration goes on where the lineage is right. -/
theorem runsUnder_step (h : RunsAt W m f rest bp X below st) (htrusted : Trusted W.stale)
    (hL : L.Describes m) (hG : st.Descends G m) (hcaptured : G.Captured W.blueprints m)
    (hstep : Exec.step m = .ok none m') : m'.RunsUnder W.toGround (G.after m) := by
  have hcontinues := step_continues ⟨W, f, rest, bp, X, below, st, rfl, h⟩
  rw [Exec.Ensures, hstep] at hcontinues
  obtain ⟨i, hat, hleads⟩ := h.exists_instruction
  have hexecute := Exec.ok_after (Exec.readOpcode_eq h.calls hat.op) hstep
  have hop := Machine.opcode?_eq h.calls hat.op
  have hexecutes : Executes W L m f rest bp X below st i.op i.operands none m' :=
    ⟨h, htrusted, hL, hop, hat.operand, hexecute⟩
  have hsize : f.ip + i.size = f.ip + 1 + i.operands.length := by
    rw [Instruction.size]
    omega
  obtain ⟨st₁, hcomes, hensures⟩ := h.execute hat.operand hsize hleads
  rw [Exec.Ensures, hexecute] at hensures
  obtain ⟨V, f', rest', bp', Y, below', st', hground, hruns, hst'⟩ := hensures
  refine ⟨V, f', rest', bp', Y, below', st', hground, hruns, ?_⟩
  rcases hst' with rfl | ⟨rfl, -⟩
  · cases hcomes with
    | other _ => trivial
    | run hq => exact hexecutes.descends_runs hG hcaptured hq hcontinues
  · trivial

end RunsAt

theorem Machine.RunsUnder.pause {ground : Ground} {G : Lineage} {m : Machine}
    (h : m.RunsUnder ground G) (pause : Pause) : (pause.apply m).RunsUnder ground G := by
  obtain ⟨W, f, rest, bp, X, below, st, hground, hruns, hG⟩ := h
  exact ⟨W, f, rest, bp, X, below, st, hground, hruns.pause pause, by cases st <;> exact hG⟩

/-- A lineage is right: for the closures that there are, and at the point that a run has come to. -/
structure Lineage.Describes (G : Lineage) (blueprints : List Blueprint) (m : Machine) : Prop where
  /-- The machine is in a sound run, or between two of them. -/
  lives : m.Lives blueprints
  /-- Closures have captured the superclasses that the lineage says. -/
  captured : G.Captured blueprints m
  /-- A class that is being declared has inherited from what the lineage says. -/
  runs : ∀ f rest, m.calls = f :: rest →
    ∃ stale, Trusted stale ∧ m.RunsUnder ⟨blueprints, stale⟩ G

namespace Lineage.Describes

open Machine

variable {G : Lineage} {m m' : Machine} {blueprints : List Blueprint} {result : Option Value}
  {natives : List Native}

/-- **A step leaves the lineage right**. -/
theorem step (h : G.Describes blueprints m) (hstep : Exec.step m = .ok result m') :
    (G.after m).Describes blueprints m' := by
  have hlives := h.lives.step hstep
  obtain ⟨_, L, hrunning, -, hL⟩ := h.lives.exists_running hstep
  obtain ⟨_, f, rest, _, _, _, _, -, hat⟩ := hrunning
  obtain ⟨stale, htrusted, W, f, rest, bp, X, below, st, hground, hruns, hG⟩ :=
    h.runs f rest hat.calls
  obtain rfl : W.blueprints = blueprints := congrArg Ground.blueprints hground
  obtain rfl : W.stale = stale := congrArg Ground.stale hground
  refine ⟨hlives, hruns.captured_step htrusted hL hG h.captured hstep, fun f' rest' hcalls => ?_⟩
  cases result with
  | none => exact ⟨W.stale, htrusted, hruns.runsUnder_step htrusted hL hG h.captured hstep⟩
  | some value =>
    have hcontinues := step_continues ⟨W, f, rest, bp, X, below, st, rfl, hruns⟩
    rw [Exec.Ensures, hstep] at hcontinues
    have hquiet : m'.Quiet W.toGround := hcontinues
    cases hquiet.calls.symm.trans hcalls

/-- A pause leaves the lineage right. -/
theorem pause (h : G.Describes blueprints m) (pause : Pause) :
    G.Describes blueprints (pause.apply m) := by
  refine ⟨h.lives.pause pause, fun i k c bp cell hc hbp hcell hkind => ?_, fun f rest hcalls => ?_⟩
  · obtain ⟨superclass, hbound, hholds⟩ := h.captured i k c bp cell hc hbp hcell hkind
    exact ⟨superclass, hbound, hholds.congr rfl rfl⟩
  · obtain ⟨stale, htrusted, hruns⟩ := h.runs f rest hcalls
    exact ⟨stale, htrusted, hruns.pause pause⟩

/-- A run that starts has captured no superclass, and leaves those that have been captured as they
are, for no cell is open between two runs. -/
theorem launch {source : String} {program : Program} (h : G.Describes blueprints m)
    (hcalls : m.calls = []) (hcompile : Program.compileAfter m.heap.functions source = .ok program)
    (hlaunch : (m.load program).launch program.main = .running m') :
    ∃ blueprints', G.Describes blueprints' m' := by
  obtain ⟨blueprints', hle, hlives⟩ := h.lives.launch hcalls hcompile hlaunch
  obtain ⟨hheap, slots, hcalls'⟩ := launch_running hlaunch
  -- Only the closure of the main function is new, and that one captures nothing.
  refine ⟨blueprints', hlives, fun i k c bp cell hc hbp hcell hkind => ?_, fun f rest hstart => ?_⟩
  · obtain ⟨⟨W, hground, hat⟩, -⟩ : m.RestsWith blueprints := by
      cases h.lives with
      | running hrunning _ _ =>
        obtain ⟨_, f, rest, _, _, _, _, -, hruns⟩ := hrunning
        cases hcalls.symm.trans hruns.calls
      | resting hrests _ => exact hrests
    obtain rfl : W.blueprints = blueprints := congrArg Ground.blueprints hground
    have hclosures : m'.heap.closures = m.heap.closures.push ⟨program.main, #[]⟩ :=
      congrArg Heap.closures hheap
    rw [hclosures, Array.getElem?_push] at hc
    split at hc
    · obtain rfl := Option.some.inj hc
      cases hcell
    · have hlisted : m.heap.closures.toList[i]? = some c := Array.getElem?_toList.trans hc
      obtain ⟨bp', -, hok⟩ := exists_getElem?_of_forall₂ hat.heap.closures.flip hlisted
      obtain rfl : bp' = bp :=
        Option.some.inj ((getElem?_of_isPrefix hle hok.function).symm.trans hbp)
      obtain ⟨superclass, hbound, hholds⟩ := h.captured i k c bp' cell hc hok.function hcell hkind
      refine ⟨superclass, hbound, ?_⟩
      have hcells : m'.heap.cells = (m.load program).heap.cells := cells_of_launch hlaunch
      cases hholds with
      | opened _ hv =>
        rw [List.forall₂_nil_right_iff.1 hat.values] at hv
        cases hv
      | closed hclosed =>
        refine .closed ?_
        rw [Heap.cell, hcells]
        exact hclosed
  · cases hlives with
    | resting hrests _ => cases hrests.calls.symm.trans hstart
    | @running stale _ hrunning htrusted _ =>
      obtain ⟨W, f', rest', bp, X, below, st, hground, hruns⟩ := hrunning
      refine ⟨stale, htrusted, W, f', rest', bp, X, below, st, hground, hruns, ?_⟩
      obtain ⟨rfl, -⟩ := List.cons.inj (hruns.calls.symm.trans hcalls')
      obtain ⟨q, hq, -, hstage⟩ := hruns.fits.entry
      obtain rfl : ⟨X, st⟩ = q := Option.some.inj (hruns.point.symm.trans hq)
      obtain rfl : st = .plain := by
        rcases hstage with hst | ⟨hst, -⟩
        · exact hst
        · exact hst
      trivial

end Lineage.Describes

/-- **Wherever a machine comes** from a new one, its lineage is right. -/
theorem Machine.Recalls.describes {natives : List Native} {m : Machine} {G : Lineage}
    (h : Machine.Recalls natives m G) : ∃ blueprints, G.Describes blueprints m := by
  induction h with
  | new sink now =>
    obtain ⟨⟨blueprints, hrests⟩, htrusted⟩ := Session.clean_new natives sink now
    refine ⟨blueprints, .resting hrests htrusted, fun i k c bp cell hc => ?_,
      fun f rest hcalls => ?_⟩
    · cases hc
    · cases hrests.calls.symm.trans hcalls
  | step _ hstep ih =>
    obtain ⟨blueprints, hG⟩ := ih
    exact ⟨blueprints, hG.step hstep⟩
  | pause _ pause ih =>
    obtain ⟨blueprints, hG⟩ := ih
    exact ⟨blueprints, hG.pause pause⟩
  | launch _ hcalls hcompile hlaunch ih =>
    obtain ⟨blueprints, hG⟩ := ih
    exact hG.launch hcalls hcompile hlaunch

/-! ## Asking superclasses -/

namespace Machine

variable {m : Machine} {G : Lineage} {blueprints : List Blueprint} {op : Opcode}

/-- Code asks the superclass that a lineage says, the one of the innermost class it is declared in:
with the operands of the next instruction the machine is `m₁`, and without the superclass it is
`m₂`. -/
structure Asks (m : Machine) (G : Lineage) (m₁ : Machine) (superclass : ClassId) (m₂ : Machine) :
    Prop where
  /-- The lineage says so of the closure in progress. -/
  bound : ∃ f rest, m.calls = f :: rest ∧ G.bound f.closure = some superclass
  /-- It is the class that the instruction takes off the stack. -/
  taken : Exec.popClass m₁ = .ok superclass m₂

/-- The superclasses that properties are asked for are those that a lineage says. -/
structure BindsSuper (m : Machine) (G : Lineage) : Prop where
  /-- A member is given to a class: it is declared in a class with the superclass of that one. -/
  members : ∀ op, m.opcode? = some op → op ∈ Opcode.members → ∃ closure id values,
    m.values = .closureRef closure :: .classRef id :: values ∧ G.bound closure = G.superclass id
  /-- A property is read: it is searched in the superclass, whatever the class of the instance. -/
  reads : m.opcode? = some .getSuper → ∃ name m₁ superclass m₂ receiver m₃,
    Exec.fetchNamed m = .ok (.getSuper, name) m₁ ∧ m.Asks G m₁ superclass m₂ ∧
    Exec.pop m₂ = .ok (.instanceRef receiver) m₃ ∧
    Exec.step m = Exec.proceed (Exec.readSuperProperty superclass receiver name) m₃
  /-- A method is called: it is searched in the superclass, whatever the class of the instance. -/
  invokes : m.opcode? = some .invokeSuper → ∃ name arguments m₁ superclass m₂ receiver,
    Exec.fetchCall m = .ok (.invokeSuper, name, arguments) m₁ ∧ m.Asks G m₁ superclass m₂ ∧
    m₂.stack.peek arguments.toNat = .ok (.instanceRef receiver) ∧
    Exec.step m = Exec.proceed (Exec.invokeFrom superclass name arguments) m₂

end Machine

namespace Exec

variable {W : World} {m : Machine} {f : Frame} {rest : List Frame} {bp : Blueprint}
  {X below : Shape} {st : Stage} {op : Opcode} {c n : UInt8} {name : String}

/-- An instruction about a name is read with its name. -/
theorem fetchNamed_eq (hcalls : m.calls = f :: rest)
    (hop : (chunkOf m f).code[f.ip]? = some op.toByte)
    (hbyte : (chunkOf m f).code[f.ip + 1]? = some c)
    (hname : (chunkOf m f).constants[c.toNat]? = some (.string name)) :
    fetchNamed m = .ok (op, name) (m.moveTo (f.ip + 2)) := by
  rw [fetchNamed, bind_of_ok (readOpcode_eq hcalls hop),
    bind_of_ok (readName_eq hcalls hbyte hname)]
  rfl

/-- An instruction that calls by a name is read with the name and the number of arguments. -/
theorem fetchCall_eq (hcalls : m.calls = f :: rest)
    (hop : (chunkOf m f).code[f.ip]? = some op.toByte)
    (hbyte : (chunkOf m f).code[f.ip + 1]? = some c)
    (hname : (chunkOf m f).constants[c.toNat]? = some (.string name))
    (hcount : (chunkOf m f).code[f.ip + 2]? = some n) :
    fetchCall m = .ok (op, name, n) (m.moveTo (f.ip + 3)) := by
  rw [fetchCall, bind_of_ok (fetchNamed_eq hcalls hop hbyte hname)]
  dsimp only
  rw [bind_of_ok (readByte_eq hcalls hcount)]
  rfl

end Exec

namespace Lineage.Describes

open Machine

variable {G : Lineage} {m : Machine} {blueprints : List Blueprint} {op : Opcode}

/-- Where there is an instruction, the lineage is right at its point. -/
theorem exists_runsAt (h : G.Describes blueprints m) (hop : m.opcode? = some op) :
    ∃ W f rest bp X below st, Trusted W.stale ∧ RunsAt W m f rest bp X below st ∧
      st.Descends G m := by
  cases hcalls : m.calls with
  | nil =>
    have htop : m.frames.top? = none := by
      rw [Stack.top?_eq_head?, show m.frames.down = [] from hcalls]
      rfl
    rw [opcode?, byte?, htop] at hop
    cases hop
  | cons f rest =>
    obtain ⟨stale, htrusted, W, f', rest', bp, X, below, st, hground, hruns, hG⟩ :=
      h.runs f rest hcalls
    have hstale : W.stale = stale := congrArg Ground.stale hground
    exact ⟨W, f', rest', bp, X, below, st, hstale ▸ htrusted, hruns, hG⟩

/-- A member is added to the class under whose superclass it was made. -/
theorem members (h : G.Describes blueprints m) (hop : m.opcode? = some op)
    (hmember : op ∈ Opcode.members) : ∃ closure id values,
      m.values = .closureRef closure :: .classRef id :: values ∧
        G.bound closure = G.superclass id := by
  obtain ⟨W, f, rest, bp, X, below, st, -, hruns, hG⟩ := h.exists_runsAt hop
  obtain ⟨op', operands, next, hop', -, -, hleads⟩ := hruns.next
  obtain rfl : op = op' := Option.some.inj (hop.symm.trans hop')
  obtain ⟨⟨derived, initializes, rfl⟩, -⟩ := hleads.of_member hmember
  exact hG.1

/-- **A property of a superclass is read from the class that the lineage says**. -/
theorem reads (h : G.Describes blueprints m) (hop : m.opcode? = some .getSuper) :
    ∃ name m₁ superclass m₂ receiver m₃, Exec.fetchNamed m = .ok (.getSuper, name) m₁ ∧
      m.Asks G m₁ superclass m₂ ∧ Exec.pop m₂ = .ok (.instanceRef receiver) m₃ ∧
      Exec.step m = Exec.proceed (Exec.readSuperProperty superclass receiver name) m₃ := by
  obtain ⟨W, f, rest, bp, X, below, st, htrusted, hruns, hG⟩ := h.exists_runsAt hop
  obtain ⟨i, hat, hleads⟩ := hruns.exists_instruction
  have hi : i.op = .getSuper := Option.some.inj ((opcode?_eq hruns.calls hat.op).symm.trans hop)
  have hbyte := hat.op
  have hbytes := @hat.operand
  rw [hi] at hleads hbyte
  obtain ⟨c, name, Y, hoperands, hname, rfl, rfl⟩ := hleads.of_getSuper
  obtain ⟨f', rest', superclass, values, hcalls, hvalues, hbound⟩ := hG
  have hfetch := Exec.fetchNamed_eq hruns.calls hbyte
    (hbytes (k := 0) (by rw [hoperands]; rfl)) hname
  obtain ⟨m₂, hclass, hvalues₂, -⟩ := Exec.popClass_eq (m := m.moveTo (f.ip + 2)) hvalues
  have hall := hruns.typed.values
  rw [hvalues] at hall
  obtain ⟨v, values', hreceiver, -, rfl⟩ :=
    List.forall₂_cons_right_iff.1 (List.forall₂_cons.1 hall).2
  obtain ⟨receiver, rfl⟩ := hreceiver.instance_of_trusted htrusted
  obtain ⟨m₃, hpop, -⟩ := Exec.pop_eq hvalues₂
  refine ⟨name, _, superclass, m₂, receiver, m₃, hfetch,
    ⟨⟨f', rest', hcalls, hbound⟩, hclass⟩, hpop, ?_⟩
  rw [Exec.step_of_fetchNamed rfl hfetch, Exec.proceed_congr (Exec.bind_of_ok hclass),
    Exec.proceed_congr (Exec.bind_of_ok hpop)]

/-- **A method of a superclass is looked up in the class that the lineage says**. -/
theorem invokes (h : G.Describes blueprints m) (hop : m.opcode? = some .invokeSuper) :
    ∃ name arguments m₁ superclass m₂ receiver,
      Exec.fetchCall m = .ok (.invokeSuper, name, arguments) m₁ ∧ m.Asks G m₁ superclass m₂ ∧
      m₂.stack.peek arguments.toNat = .ok (.instanceRef receiver) ∧
      Exec.step m = Exec.proceed (Exec.invokeFrom superclass name arguments) m₂ := by
  obtain ⟨W, f, rest, bp, X, below, st, htrusted, hruns, hG⟩ := h.exists_runsAt hop
  obtain ⟨i, hat, hleads⟩ := hruns.exists_instruction
  have hi : i.op = .invokeSuper := Option.some.inj ((opcode?_eq hruns.calls hat.op).symm.trans hop)
  have hbyte := hat.op
  have hbytes := @hat.operand
  rw [hi] at hleads hbyte
  obtain ⟨c, n, name, Y, hoperands, hname, rfl, rfl⟩ := hleads.of_invokeSuper
  obtain ⟨f', rest', superclass, values, hcalls, hvalues, hbound⟩ := hG
  have hfetch := Exec.fetchCall_eq hruns.calls hbyte
    (hbytes (k := 0) (by rw [hoperands]; rfl)) hname
    (hbytes (k := 1) (by rw [hoperands]; rfl))
  obtain ⟨m₂, hclass, hvalues₂, -⟩ := Exec.popClass_eq (m := m.moveTo (f.ip + 3)) hvalues
  have hall := hruns.typed.values
  rw [hvalues] at hall
  have hshape : (List.replicate n.toNat .operand ++ .temp .receiver :: Y ++
    bp.receiver :: below)[n.toNat]?
      = some (.temp .receiver) := by simp
  obtain ⟨v, hv, hreceiver⟩ := exists_getElem?_of_forall₂ (List.forall₂_cons.1 hall).2 hshape
  obtain ⟨receiver, rfl⟩ := hreceiver.instance_of_trusted htrusted
  rw [← hvalues₂] at hv
  refine ⟨name, n, _, superclass, m₂, receiver, hfetch, ⟨⟨f', rest', hcalls, hbound⟩, hclass⟩,
    Stack.peek_eq_ok hv, ?_⟩
  rw [Exec.step_of_fetchCall (x := fun name arguments => do
    Exec.invokeFrom (← Exec.popClass) name arguments) rfl hfetch,
    Exec.proceed_congr (Exec.bind_of_ok hclass)]

theorem binds (h : G.Describes blueprints m) : m.BindsSuper G where
  members _ := h.members
  reads := h.reads
  invokes := h.invokes

end Lineage.Describes

/-! ## Sessions -/

namespace Machine

variable {natives : List Native} {m m' : Machine} {G : Lineage}

/-- A run of a compiled source goes on with what has been said before. -/
theorem Recalls.executes {source : String} (h : Recalls natives m G) (hcalls : m.calls = [])
    (hm : m.Executes source m') : ∃ G, Recalls natives m' G := by
  obtain ⟨program, hcompile, hvisits⟩ := hm
  induction hvisits with
  | start hlaunch => exact ⟨G, .launch h hcalls hcompile hlaunch⟩
  | step _ hstep ih =>
    obtain ⟨G', h'⟩ := ih
    exact ⟨_, h'.step hstep⟩
  | pause _ pause ih =>
    obtain ⟨G', h'⟩ := ih
    exact ⟨G', h'.pause pause⟩

end Machine

namespace Session

variable {natives : List Native} {s s' : Session} {source : String} {pauses : List Pause}
  {value : Value} {m : Machine}

/-- A run that returns a value takes a machine that has come from a new one to another such
machine. -/
theorem recalls_run (h : ∃ G, Machine.Recalls natives s.machine G) (hclean : s.Clean)
    (hrun : s.run (.paced pauses) source = some (.ok value, s')) :
    ∃ G, Machine.Recalls natives s'.machine G := by
  obtain ⟨G, hG⟩ := h
  rcases run_cases hrun with ⟨-, _, herror⟩ | ⟨last, result, ⟨program, hcompile, hends⟩, hresult⟩
  · cases herror
  · cases result with
    | error fault => cases hresult
    | ok value' =>
      cases hends with
      | returned hvisits hstep =>
        obtain ⟨blueprints, hrests⟩ := hclean.rests
        obtain ⟨G', hG'⟩ := hG.executes hrests.calls ⟨program, hcompile, hvisits⟩
        exact ⟨_, hG'.step hstep⟩

/-- What has been said about superclasses goes on through the prelude. -/
theorem recalls_loadPrelude (h : ∃ G, Machine.Recalls natives s.machine G) (hclean : s.Clean)
    (hload : s.loadPrelude (.paced pauses) = some (.ok (), s')) :
    ∃ G, Machine.Recalls natives s'.machine G := by
  unfold loadPrelude at hload
  split at hload
  · obtain ⟨-, rfl⟩ := Prod.mk.inj (Option.some.inj hload)
    exact h
  · obtain ⟨⟨outcome, s''⟩, hrun, hreturn⟩ := Option.bind_eq_some_iff.1 hload
    obtain ⟨hok, rfl⟩ := Prod.mk.inj (Option.some.inj hreturn)
    cases outcome with
    | ok value =>
      have hclean' : Clean { s with preludeLoaded := true } := ⟨hclean.rests, hclean.trusted⟩
      exact recalls_run (s := { s with preludeLoaded := true }) h hclean' hrun
    | error e => cases hok

/-- **The machine of a session** whose runs have returned values has come from a new one. -/
theorem Reached.recalls (h : Reached natives s) : ∃ G, Machine.Recalls natives s.machine G := by
  induction h with
  | new sink now => exact ⟨_, .new sink now⟩
  | pause _ pause ih =>
    obtain ⟨G, hG⟩ := ih
    exact ⟨G, hG.pause pause⟩
  | run h pauses hrun ih => exact recalls_run ih h.clean hrun
  | interpret h pauses hinterpret ih =>
    obtain ⟨⟨result, s''⟩, hload, hrest⟩ := Option.bind_eq_some_iff.1 hinterpret
    cases result with
    | ok _ =>
      exact recalls_run (recalls_loadPrelude ih h.clean hload)
        ((loadPrelude_sound h.clean hload).1 rfl) hrest
    | error e => cases (Prod.mk.inj (Option.some.inj hrest)).1

/-- **Superclasses are bound where members are declared**, in every run of a session whose runs have
returned values so far: a property that is searched in a superclass is searched in what the class
around the code had inherited from when its member was made. -/
theorem Reached.bindsSuper (h : Reached natives s) (hm : s.machine.Executes source m) :
    (∃ G, Machine.Recalls natives m G) ∧ ∀ G, Machine.Recalls natives m G → m.BindsSuper G := by
  obtain ⟨blueprints, hrests⟩ := h.clean.rests
  obtain ⟨G, hG⟩ := h.recalls
  refine ⟨hG.executes hrests.calls hm, fun G hG => ?_⟩
  obtain ⟨_, hdescribes⟩ := hG.describes
  exact hdescribes.binds

/-- Whether a program comes to an instruction. -/
def comesTo (source : String) (steps : Nat) (op : Opcode) : Bool :=
  match Machine.reached? source steps with
  | some m => decide (m.opcode? = some op)
  | none => false

/-- A function in a method calls a method of the superclass, after the name of the superclass has
been given to something else. -/
theorem Reached.bindsSuper_nested : ∃ m G, (Session.new [] .reliable 0).machine.Executes
      "class A \x7b f() \x7b \x7d \x7d
      class B: A \x7b g() \x7b func h() \x7b super.f(); \x7d return h; \x7d \x7d
      A = 1; B().g()();" m ∧
    m.opcode? = some .invokeSuper ∧ Machine.Recalls [] m G ∧ m.BindsSuper G := by
  have hchecked : comesTo "class A \x7b f() \x7b \x7d \x7d
      class B: A \x7b g() \x7b func h() \x7b super.f(); \x7d return h; \x7d \x7d
      A = 1; B().g()();" 28 .invokeSuper = true := by
    decide +kernel
  unfold comesTo at hchecked
  split at hchecked
  · next m hm =>
    have hexecutes := executes_of_reached? hm
    have hreached : Reached [] (Session.new [] .reliable 0) := .new .reliable 0
    obtain ⟨⟨G, hG⟩, hbinds⟩ := Reached.bindsSuper hreached hexecutes
    exact ⟨m, G, hexecutes, of_decide_eq_true hchecked, hG, hbinds G hG⟩
  · cases hchecked

end Session

end ScriptVM
