/-
# Captured variables in sessions

In every run of a session whose runs have returned values so far, a captured variable is one shared
cell: whatever alias an instruction reads it through, it finds the value that was written to the
variable last, and different variables never share a cell.  Behind a run that returned a value all
cells are closed, and hold what their variables held at its end.

A run that fails drops its open cells as they are.  They still stand for stack slots, so that later
runs read and write these slots through them.

Main statements: `Session.Reached.shares`, `Session.Reached.closes_cells`.
-/
import ScriptVM.Proofs.Machine.Variables

namespace ScriptVM

/-! ## What instructions do with variables -/

/-- An instruction that reads a variable of a call names one. -/
theorem Leads.reads {Γ : Env} {S X : Shape} {points : Nat → Option Point} {next : Nat} {op : Opcode}
    {operands : List UInt8} {st : Stage} (h : Leads Γ S points next op operands ⟨X, st⟩)
    (hop : op = .getLocal ∨ op = .getUpvalue) :
    ∃ i k, operands = [i] ∧ Reads Γ (X ++ S) op i k := by
  cases h with
  | run hruns _ =>
    cases hruns with
    | read hreads _ => exact ⟨_, _, rfl, hreads⟩
    | readSuper hk => exact ⟨_, _, rfl, .fromCell hk⟩
    | readOwn hs _ => exact ⟨_, _, rfl, .fromSlot (i := 0) hs⟩
    | choose hreads _ _ => exact ⟨_, _, rfl, hreads⟩
    | pair hreads _ => exact ⟨_, _, rfl, hreads⟩
    | hold hreads _ _ => exact ⟨_, _, rfl, hreads⟩
    | push h => rcases hop with rfl | rfl <;> exact absurd h (by decide)
    | unary h => rcases hop with rfl | rfl <;> exact absurd h (by decide)
    | binary h => rcases hop with rfl | rfl <;> exact absurd h (by decide)
    | addMember h _ _ => rcases hop with rfl | rfl <;> exact absurd h (by decide)
    | write h => cases h <;> simp at hop
    | _ => simp at hop
  | _ => simp at hop

/-- An instruction that makes a closure says where its captured variables come from, the superclass
among them. -/
theorem Leads.closes {Γ : Env} {S X : Shape} {points : Nat → Option Point} {next : Nat}
    {operands : List UInt8} {st : Stage} (h : Leads Γ S points next .closure operands ⟨X, st⟩) :
    ∃ (c : UInt8) (captures : List Capture) (function : FunctionId) (g : Blueprint) (Y : Shape),
      operands = c :: captureBytes captures ∧ Γ.constants[c.toNat]? = some (.functionRef function) ∧
      Γ.blueprints[function.index]? = some g ∧
      List.Forall₂ (Γ.Supplies Y) captures g.captures ∧ st.Makes g.isMember ∧
      ∀ (k : Nat) (capture : Capture), captures[k]? = some capture →
        g.captures[k]? = some .parent → capture.Inherits g.isMember st (X ++ S).length := by
  cases h with
  | run hruns _ =>
    cases hruns with
    | closure hc hg hst hsupplies hparents =>
      exact ⟨_, _, _, _, _, rfl, hc, hg, hsupplies, hst, hparents⟩
    | push h => exact absurd h (by decide)
    | unary h => exact absurd h (by decide)
    | binary h => exact absurd h (by decide)
    | addMember h _ _ => exact absurd h (by decide)
    | read h _ => cases h
    | write h => cases h
    | choose h _ _ => cases h
    | pair h _ => cases h
    | hold h _ _ => cases h

/-- An instruction that assigns a variable of a call names one. -/
theorem Leads.writes {Γ : Env} {S X : Shape} {points : Nat → Option Point}
    {next : Nat} {op : Opcode}
    {operands : List UInt8} {st : Stage} (h : Leads Γ S points next op operands ⟨X, st⟩)
    (hop : op = .setLocal ∨ op = .setUpvalue) :
    ∃ i Y, operands = [i] ∧ X = .operand :: Y ∧ Writes Γ (Y ++ S) op i := by
  cases h with
  | run hruns _ =>
    cases hruns with
    | write hwrites => exact ⟨_, _, rfl, rfl, hwrites⟩
    | push h => rcases hop with rfl | rfl <;> exact absurd h (by decide)
    | unary h => rcases hop with rfl | rfl <;> exact absurd h (by decide)
    | binary h => rcases hop with rfl | rfl <;> exact absurd h (by decide)
    | addMember h _ _ => rcases hop with rfl | rfl <;> exact absurd h (by decide)
    | read h _ => cases h <;> simp at hop
    | choose h _ _ => cases h <;> simp at hop
    | pair h _ => cases h <;> simp at hop
    | hold h _ _ => cases h <;> simp at hop
    | _ => simp at hop
  | _ => simp at hop

namespace Exec

variable {m : Machine} {f : Frame} {rest : List Frame} {i : UInt8} {ip : Nat}
  {v : Value} {id : CellId}

/-- A value is pushed if the stack is not full. -/
theorem push_of_lt (v : Value) (h : m.stack.size < stackLimit) :
    ∃ m', push v m = .ok () m' ∧ m.Pushed v m' := by
  refine ⟨{ m with stack := m.stack.pushOf v h }, ?_, Stack.down_pushOf h, rfl, rfl, rfl, rfl⟩
  unfold push
  rw [dif_pos h]

/-- An instruction that ends with pushing a value. -/
theorem proceed_push {x : Exec Unit} {m₁ : Machine} (hx : x m = push v m₁)
    (hstack : m₁.stack = m.stack) (h : m.stack.size < stackLimit) :
    ∃ m', proceed x m = .ok none m' ∧ m'.values = v :: m.values := by
  obtain ⟨m', hpush, hpushed⟩ := push_of_lt (m := m₁) v (by rwa [hstack])
  refine ⟨m', (bind_of_ok (hx.trans hpush)).trans rfl, ?_⟩
  rw [hpushed.values]
  exact congrArg _ (congrArg Stack.down hstack)

/-- The value of a local variable is pushed if the stack is not full. -/
theorem getLocal_push (hcalls : m.calls = f :: rest)
    (hbyte : (chunkOf m f).code[f.ip + 1]? = some i)
    (hv : slot? m.values (f.slots + i.toNat) = some v) (h : m.stack.size < stackLimit) :
    ∃ m', execute .getLocal (m.moveTo (f.ip + 1)) = .ok none m' ∧ m'.values = v :: m.values := by
  have hpush : getLocal (m.moveTo (f.ip + 1)) = push v (m.moveTo (f.ip + 2)) := by
    refine (bind_of_ok (readByte_eq hcalls hbyte)).trans ?_
    refine (bind_of_ok (frame_eq (Machine.calls_moveTo hcalls (f.ip + 2)))).trans ?_
    exact bind_of_ok (getSlot_eq (m := m.moveTo (f.ip + 2)) hv)
  exact proceed_push hpush rfl h

/-- Reading a cell gives what it holds. -/
theorem getCell_of_holds (h : Holds m id v) : getCell id m = .ok v m := by
  refine (bind_of_ok (x := heap) rfl).trans ?_
  cases h with
  | opened hcell hv =>
    rw [hcell]
    exact getSlot_eq hv
  | closed hcell =>
    rw [hcell]
    rfl

/-- The value of a captured variable is pushed if the stack is not full. -/
theorem getUpvalue_push (hread : readCell (m.moveTo (f.ip + 1)) = .ok id (m.moveTo (f.ip + 2)))
    (hv : Holds m id v) (h : m.stack.size < stackLimit) :
    ∃ m', execute .getUpvalue (m.moveTo (f.ip + 1)) = .ok none m' ∧ m'.values = v :: m.values := by
  have hv : Holds (m.moveTo (f.ip + 2)) id v := hv.congr rfl rfl
  have hpush : getCaptured (m.moveTo (f.ip + 1)) = push v (m.moveTo (f.ip + 2)) :=
    (bind_of_ok hread).trans (bind_of_ok (getCell_of_holds hv))
  exact proceed_push hpush rfl h

end Exec

/-! ## Ledgers and instructions -/

theorem Heap.cell_of_getElem? {heap : Heap} {id : CellId} {c : Cell}
    (h : heap.cells[id.index]? = some c) : heap.cell id = c := by
  rw [cell, Array.getD_eq_getD_getElem?, h]
  rfl

/-- The newest closure is the last one. -/
theorem Heap.closure_of_push {heap heap' : Heap} {c : Closure}
    (h : heap'.closures = heap.closures.push c) : heap'.closure ⟨heap.closures.size⟩ = c := by
  rw [closure, h, Array.getD_eq_getD_getElem?, Array.getElem?_push_size]
  rfl

namespace Ledger.Describes

variable {L : Ledger} {m : Machine}

/-- A slot holds what was written to its variable last. -/
theorem value_slot (h : L.Describes m) {i : Nat} {v : Value} (hv : slot? m.values i = some v) :
    L.value? (.slot i) = some v := by
  have hget : m.stack.toList[i]? = some v := by
    rw [← slot?_reverse]
    exact hv
  have hlt := (List.getElem?_eq_some_iff.1 hget).1
  rw [Stack.length_toList] at hlt
  obtain ⟨x, hx⟩ := h.exists_owner hlt
  show (L.owners[i]?).bind _ = _
  rw [hx]
  exact h.slot hx hget

/-- A cell holds what was written to its variable last, whether it is open or closed. -/
theorem value_cell (h : L.Describes m) {id : CellId} (hid : id.index < m.heap.cells.size) :
    ∃ v, Exec.Holds m id v ∧ L.value? (.cell id) = some v := by
  have hget := Array.getElem?_eq_getElem hid
  cases hcell : m.heap.cells[id.index] with
  | openAt s =>
    rw [hcell] at hget
    obtain ⟨x, hx, hsx⟩ := h.opened hget
    have hlt := (List.getElem?_eq_some_iff.1 hsx).1
    rw [h.length_owners, m.size_stack] at hlt
    obtain ⟨v, hv⟩ := exists_slot? hlt
    refine ⟨v, .opened (Heap.cell_of_getElem? hget) hv, ?_⟩
    have hvalue : (L.owners[s]?).bind _ = _ := h.value_slot hv
    show (L.homes[id.index]?).bind _ = _
    rw [hx, ← hsx]
    exact hvalue
  | closed v =>
    rw [hcell] at hget
    obtain ⟨x, hx, hxv, -⟩ := h.closed hget
    refine ⟨v, .closed (Heap.cell_of_getElem? hget), ?_⟩
    show (L.homes[id.index]?).bind _ = _
    rw [hx]
    exact hxv

end Ledger.Describes

/-- What instructions do with variables is what a ledger says: every alias of a variable gives the
value that was written to the variable last, and different variables have different cells. -/
structure Ledger.Faithful (L : Ledger) (m : Machine) : Prop where
  /-- What is read from a variable is the value that was written to it last, through whatever alias
  that was; there may be no place for it on the stack. -/
  reads : ∀ a, m.read? = some a → ∃ v, L.value? a = some v ∧
    (m.stack.size < stackLimit → ∃ m', Exec.step m = .ok none m' ∧ m'.values = v :: m.values)
  /-- What is written to a variable is the value on top. -/
  writes : ∀ a, m.written? = some a → ∃ v m', m.values.head? = some v ∧
    Exec.step m = .ok none m' ∧ (L.after m m').value? a = some v
  /-- The cells of a new closure belong to the variables that its code names. -/
  captures : m.opcode? = some .closure → ∀ m', Exec.step m = .ok none m' →
    ∃ id, m'.values = .closureRef id :: m.values ∧
      ∀ k cell, (m'.heap.closure id).captures[k]? = some cell →
        ∃ a x, m.captured? k = some a ∧ (L.after m m').varOf? a = some x ∧
          (L.after m m').varOf? (.cell cell) = some x
  /-- A variable that begins has no cell yet. -/
  begins : ∀ result m', Exec.step m = .ok result m' → ∀ x ∈ (L.after m m').owners, x ∉ L.owners →
    x ∉ L.homes
  /-- A cell stays with its variable. -/
  stays : ∀ result m', Exec.step m = .ok result m' → L.homes <+: (L.after m m').homes
  /-- No two slots belong to the same variable. -/
  slots : L.owners.Nodup
  /-- No two cells belong to the same variable. -/
  cells : L.homes.Nodup

namespace RunsAt

open Exec

variable {W : World} {L : Ledger} {m : Machine} {f : Frame} {rest : List Frame} {bp : Blueprint}
  {X below : Shape} {st : Stage} {a : Alias}

/-- **A variable is read** through any alias: what is found is the value last written to it. -/
theorem reads (h : RunsAt W m f rest bp X below st) (hL : L.Describes m)
    (ha : m.read? = some a) : ∃ v, L.value? a = some v ∧
      (m.stack.size < stackLimit → ∃ m', step m = .ok none m' ∧ m'.values = v :: m.values) := by
  obtain ⟨op, operands, next, hop, hbytes, hstep, hleads⟩ := h.next
  have hget : op = .getLocal ∨ op = .getUpvalue := by
    rw [Machine.read?, hop] at ha
    cases op <;> first | exact .inl rfl | exact .inr rfl | cases ha
  obtain ⟨i, k, rfl, hreads⟩ := hleads.reads hget
  have hoperand : m.operand 0 = i.toNat := Machine.operand_eq h.calls (hbytes (k := 0) rfl)
  rw [Machine.read?, hop, hoperand] at ha
  rw [hstep]
  cases hreads with
  | fromSlot hs =>
    obtain ⟨v, hv, -⟩ := h.typed.slot (h.slot hs)
    obtain rfl := Option.some.inj ((Machine.alias?_local h.calls _).symm.trans ha)
    exact ⟨v, hL.value_slot hv, getLocal_push h.calls (hbytes (k := 0) rfl) hv⟩
  | fromCell hk =>
    obtain ⟨id, hid, hread, hkind⟩ :=
      readCell_captures h.typed.heap h.calls h.function (hbytes (k := 0) rfl) hk
    obtain rfl := Option.some.inj ((Machine.alias?_captured h.calls hid).symm.trans ha)
    obtain ⟨v, hholds, hvalue⟩ :=
      hL.value_cell (Array.getElem?_eq_some_iff.1 (h.typed.heap.getElem?_cells hkind)).1
    exact ⟨v, hvalue, getUpvalue_push hread hholds⟩
  | fromGlobal _ => simp at hget

/-- **A variable is assigned** through any alias: the value on top is what is written last. -/
theorem writes (h : RunsAt W m f rest bp X below st) (hL : L.Describes m)
    (ha : m.written? = some a) : ∃ v m', m.values.head? = some v ∧ step m = .ok none m' ∧
      (L.after m m').value? a = some v := by
  obtain ⟨op, operands, next, hop, hbytes, hstep, hleads⟩ := h.next
  have hset : op = .setLocal ∨ op = .setUpvalue := by
    rw [Machine.written?, hop] at ha
    cases op <;> first | exact .inl rfl | exact .inr rfl | cases ha
  obtain ⟨i, Y, rfl, rfl, hwrites⟩ := hleads.writes hset
  have hoperand : m.operand 0 = i.toNat := Machine.operand_eq h.calls (hbytes (k := 0) rfl)
  have halias := ha
  rw [Machine.written?, hop, hoperand] at halias
  obtain ⟨v, hv, -⟩ := h.typed.value (n := 0) rfl
  have hhead : m.values.head? = some v := List.head?_eq_getElem?.trans hv
  -- Once the alias has a variable, the value is written to that.
  have hwritten : ∀ x m', L.varOf? a = some x → x < L.contents.length →
      (∀ i, a = .slot i → i < m.kept) → (L.after m m').value? a = some v := by
    intro x m' hx hlt hslot
    have hwrite : (L.assign m).contents = L.contents.set x v := by
      rw [Ledger.assign_eq ha hv, Ledger.write, hx]
    rw [Ledger.value?, Ledger.varOf?_after hx hslot]
    show ((L.assign m).contents ++ _)[x]? = _
    rw [hwrite, List.getElem?_append_left (by rwa [List.length_set]), List.getElem?_set_self hlt]
  rw [hstep]
  cases hwrites with
  | @toSlot i s hs _ =>
    have hlt : f.slots + i.toNat < m.stack.size := by
      rw [m.size_stack, h.typed.length_values]
      exact lt_length_of_slot? (h.slot (slot?_append_of_some (X := [.operand]) hs))
    obtain rfl := Option.some.inj ((Machine.alias?_local h.calls _).symm.trans halias)
    obtain ⟨x, hx⟩ := hL.exists_owner hlt
    refine ⟨v, _, hhead, bind_of_ok (setLocal_eq h.calls (hbytes (k := 0) rfl) hv hlt), ?_⟩
    refine hwritten x _ hx (hL.owner_lt (List.mem_of_getElem? hx)) ?_
    intro j hj
    injection hj with hj
    rw [← hj, Machine.kept_eq hop]
    exact hlt
  | toCell hk =>
    obtain ⟨id, hid, hread, hkind⟩ :=
      readCell_captures h.typed.heap h.calls h.function (hbytes (k := 0) rfl) hk
    obtain rfl := Option.some.inj ((Machine.alias?_captured h.calls hid).symm.trans halias)
    have hget := h.typed.heap.getElem?_cells hkind
    have hlt := (Array.getElem?_eq_some_iff.1 hget).1
    rw [← hL.length_homes] at hlt
    have hx := List.getElem?_eq_getElem hlt
    obtain ⟨m', hm'⟩ : ∃ m', setCell id v (m.moveTo (f.ip + 2)) = .ok () m' := by
      cases hcell : m.heap.cell id with
      | openAt s =>
        obtain ⟨y, -, hsy⟩ := hL.opened (hcell ▸ hget)
        have hs := (List.getElem?_eq_some_iff.1 hsy).1
        rw [hL.length_owners] at hs
        exact ⟨_, setCell_of_open (m := m.moveTo (f.ip + 2)) hcell hs⟩
      | closed w => exact ⟨_, setCell_of_closed (m := m.moveTo (f.ip + 2)) hcell⟩
    refine ⟨v, m', hhead, bind_of_ok (a := ()) ?_,
      hwritten _ m' hx (hL.home_lt (List.mem_of_getElem? hx)) ?_⟩
    · refine (bind_of_ok hread).trans ?_
      exact (bind_of_ok (peek_eq (m := m.moveTo (f.ip + 2)) hv)).trans hm'
    · intro j hj
      cases hj
  | toGlobal _ => simp at hset

end RunsAt

/-- The two bytes that say where a captured variable comes from. -/
theorem captureBytes_getElem? {captures : List Capture} {k : Nat} {c : Capture}
    (h : captures[k]? = some c) :
    (captureBytes captures)[2 * k]? = some (if c.isLocal then 1 else 0) ∧
      (captureBytes captures)[2 * k + 1]? = some c.index := by
  induction captures generalizing k with
  | nil => cases h
  | cons d captures ih =>
    have hcons : captureBytes (d :: captures)
        = [if d.isLocal then 1 else 0, d.index] ++ captureBytes captures := rfl
    cases k with
    | zero =>
      obtain rfl := Option.some.inj h
      exact ⟨rfl, rfl⟩
    | succ k =>
      rw [hcons, show 2 * (k + 1) = 2 * k + 2 by omega]
      exact ih h

namespace Ledger.Describes

open Exec

variable {ground : Ground} {L : Ledger} {m m' : Machine}

/-- **A closure captures variables**: each of its cells belongs to the variable that its code
names. -/
theorem captures (hL : L.Describes m) (h : m.Running ground) (htrusted : Trusted ground.stale)
    (hop : m.opcode? = some .closure) (hstep : step m = .ok none m') :
    ∃ id, m'.values = .closureRef id :: m.values ∧
      ∀ k cell, (m'.heap.closure id).captures[k]? = some cell →
        ∃ a x, m.captured? k = some a ∧ (L.after m m').varOf? a = some x ∧
          (L.after m m').varOf? (.cell cell) = some x := by
  have hcontinues := step_continues h
  rw [Ensures, hstep] at hcontinues
  obtain ⟨W, f, rest, bp, X, below, st, rfl, h⟩ := h
  obtain ⟨op, operands, next, hexecutes, hleads⟩ := h.executes htrusted hL hstep
  obtain rfl : op = .closure := Option.some.inj (hexecutes.opcode.symm.trans hop)
  obtain ⟨c, captures, function, g, Y, rfl, hc, hg, hsupplies, -⟩ := hleads.closes
  obtain ⟨hafter, ids, hvalues, hclosures, horigins⟩ :=
    hexecutes.of_closure hc hg hsupplies hcontinues
  have hclosure : (m'.heap.closure ⟨m.heap.closures.size⟩).captures = ids :=
    congrArg Closure.captures (Heap.closure_of_push hclosures)
  rw [← hclosure] at horigins
  refine ⟨⟨m.heap.closures.size⟩, hvalues, fun k cell hcell => ?_⟩
  rw [← Array.getElem?_toList] at hcell
  obtain ⟨hlt, rfl⟩ := List.getElem?_eq_some_iff.1 hcell
  have hlt' : k < captures.length := by
    rw [horigins.length_eq]
    exact hlt
  have horigin := horigins.get hlt' hlt
  obtain ⟨hflag, hindex⟩ := captureBytes_getElem? (List.getElem?_eq_getElem hlt')
  have hflag' := hexecutes.operand (k := 2 * k + 1) hflag
  have hindex' := hexecutes.operand (k := 2 * k + 2) hindex
  unfold Origin at horigin
  rw [Machine.captured?, hflag', hindex']
  split at horigin
  · next hlocal =>
    obtain ⟨x, hx, hsx⟩ := hafter.opened horigin
    refine ⟨.slot (f.slots + captures[k].index.toNat), x, ?_, hsx, hx⟩
    have hlocal : captures[k].isLocal = true := hlocal
    simp only [hlocal, if_true]
    exact Machine.alias?_local h.calls _
  · next hlocal =>
    have hlocal : captures[k].isLocal = false := by simpa using hlocal
    -- The cell is one that the closure in progress has captured itself.
    obtain ⟨x, hx⟩ : ∃ x, L.varOf?
      (.cell (m'.heap.closure ⟨m.heap.closures.size⟩).captures.toList[k]) = some x := by
      rw [← Array.getElem?_toList] at horigin
      obtain ⟨kind, -, hkind⟩ := exists_mem_of_forall₂ (h.typed.heap.closure h.function).captures
        (List.mem_of_getElem? horigin)
      have hsize := (Array.getElem?_eq_some_iff.1 (h.typed.heap.getElem?_cells hkind)).1
      rw [← hL.length_homes] at hsize
      exact ⟨_, List.getElem?_eq_getElem hsize⟩
    have hstays : (L.after m m').varOf?
      (.cell (m'.heap.closure ⟨m.heap.closures.size⟩).captures.toList[k]) = some x :=
      Ledger.varOf?_after hx fun i hi => by cases hi
    refine ⟨.cell (m'.heap.closure ⟨m.heap.closures.size⟩).captures.toList[k], x, ?_,
      hstays, hstays⟩
    simp only [hlocal, Bool.false_eq_true, if_false]
    exact Machine.alias?_captured h.calls horigin

/-- **Instructions do with variables what a right ledger says.** -/
theorem faithful (hL : L.Describes m) (h : m.Running ground) (htrusted : Trusted ground.stale) :
    L.Faithful m where
  reads a ha := by
    obtain ⟨W, f, rest, bp, X, below, st, -, h⟩ := h
    exact h.reads hL ha
  writes a ha := by
    obtain ⟨W, f, rest, bp, X, below, st, -, h⟩ := h
    exact h.writes hL ha
  captures hop m' hstep := hL.captures h htrusted hop hstep
  begins result m' _ x hx hnew hhome :=
    Nat.not_lt.2 (Ledger.le_of_mem_owners_after hx hnew) (hL.home_lt hhome)
  stays result m' _ := L.homes_after m m'
  slots := hL.owners_nodup
  cells := hL.homes_nodup

end Ledger.Describes

/-! ## Runs of sessions -/

/-- The first call of a run leaves the cells alone. -/
theorem Machine.cells_of_launch {m m' : Machine} {function : FunctionId}
    (h : m.launch function = .running m') : m'.heap.cells = m.heap.cells := by
  have hdigs : Exec.Digs 0 (Exec.launch function) :=
    .after_still fun _ => .after_push fun _ => inferInstance
  unfold launch at h
  split at h
  · next hlaunch =>
    injection h with hm
    subst hm
    exact (hdigs.spares hlaunch).cells
  · cases h

namespace Session

variable {natives : List Native} {s s' : Session} {source : String} {program : Program}
  {m : Machine} {L : Ledger}

/-- The ledger of a run is right if no cell is open before the run. -/
theorem Clean.describes (h : s.Clean)
    (hcompile : Program.compileAfter s.machine.heap.functions source = .ok program)
    (htracked : ((s.machine.load program).launch program.main).Tracked m L) :
    L.Describes m ∧ ∃ blueprints, m.Running ⟨blueprints, s.machine.heap.slots⟩ := by
  obtain ⟨blueprints, hsound⟩ := h.rests.launch hcompile
  refine ⟨htracked.describes hsound h.trusted fun m₀ hm₀ => ?_, blueprints,
    hsound.visits htracked.visits⟩
  rw [Heap.slots, Machine.cells_of_launch hm₀]
  exact h.trusted

/-- **A captured variable is one shared cell**, in every run of a session whose runs have returned
values so far. -/
theorem Reached.shares (h : Reached natives s)
    (hcompile : Program.compileAfter s.machine.heap.functions source = .ok program)
    (htracked : ((s.machine.load program).launch program.main).Tracked m L) : L.Faithful m := by
  obtain ⟨hdescribes, _, hrunning⟩ := h.clean.describes hcompile htracked
  exact hdescribes.faithful hrunning h.clean.trusted

/-- Whether a program comes to the reading of a captured variable. -/
def readsCell (source : String) (steps : Nat) : Bool :=
  match Program.compileAfter #[] source with
  | .ok program =>
    match ((Session.new Native.all .reliable 0).machine.load program).launch program.main with
    | .running m₀ =>
      match m₀.advance steps with
      | .running m =>
        match m.read? with
        | some (.cell _) => true
        | _ => false
      | _ => false
    | _ => false
  | _ => false

/-- A closure reads a variable that its own frame has assigned. -/
theorem Reached.shares_assigned : ∃ program m L id,
    Program.compileAfter #[] "\x7b var x = 1; func g() \x7b return x; \x7d x = 2; print g(); \x7d"
      = .ok program ∧
    (((Session.new Native.all .reliable 0).machine.load program).launch program.main).Tracked m L ∧
    m.read? = some (.cell id) ∧ L.Faithful m := by
  have hchecked : readsCell
      "\x7b var x = 1; func g() \x7b return x; \x7d x = 2; print g(); \x7d" 7 = true := by
    decide +kernel
  unfold readsCell at hchecked
  split at hchecked
  · next program hcompile =>
    split at hchecked
    · next m₀ hlaunch =>
      split at hchecked
      · next m hm =>
        split at hchecked
        · next id hread =>
          have hvisits := (Machine.Progress.Visits.start hlaunch).advance hm
          obtain ⟨L, htracked⟩ := hvisits.exists_tracked
          exact ⟨program, m, L, id, hcompile, htracked, hread,
            Reached.shares (.new .reliable 0) hcompile htracked⟩
        · exact Bool.noConfusion hchecked
      · exact Bool.noConfusion hchecked
    · exact Bool.noConfusion hchecked
  · exact Bool.noConfusion hchecked

/-- **Behind a run that returned a value** every cell is closed, and holds what its variable held at
the end of the run. -/
theorem Reached.closes_cells {pauses : List Pause} {value : Value} (h : Reached natives s)
    (hrun : s.run (.paced pauses) source = some (.ok value, s')) :
    ∃ program last L, Program.compileAfter s.machine.heap.functions source = .ok program ∧
      ((s.machine.load program).launch program.main).Tracked last L ∧
      Exec.step last = .ok (some value) s'.machine ∧
      ∀ i c, s'.machine.heap.cells[i]? = some c → ∃ v, c = .closed v ∧
        (L.after last s'.machine).value? (.cell ⟨i⟩) = some v := by
  rcases run_cases hrun with ⟨-, errors, herrors⟩ | ⟨last, result, ⟨program, hcompile, hends⟩, heq⟩
  · cases herrors
  · cases result with
    | error fault => cases heq
    | ok value' =>
      obtain rfl : value = value' := Except.ok.inj heq
      obtain ⟨_, hsound⟩ := h.clean.rests.launch hcompile
      -- A run that returns has left all its calls, and so closed the cells of their slots.
      have hquiet := hsound.returned hends
      cases hends with
      | returned hvisits hstep =>
        obtain ⟨L, htracked⟩ := hvisits.exists_tracked
        obtain ⟨hdescribes, _, hrunning⟩ := h.clean.describes hcompile htracked
        have hafter := hdescribes.after hrunning h.clean.trusted hstep
        refine ⟨program, last, L, hcompile, htracked, hstep, fun i c hi => ?_⟩
        cases c with
        | openAt slot =>
          have htrusted := Heap.trusted_iff.1 (hquiet.trusted h.clean.trusted) ⟨i⟩
          exact absurd ⟨slot, hi⟩ htrusted
        | closed v =>
          obtain ⟨x, hx, hxv, -⟩ := hafter.closed hi
          refine ⟨v, rfl, ?_⟩
          show ((L.after last s'.machine).homes[i]?).bind _ = _
          rw [hx]
          exact hxv

/-- A closure that outlives the scope of its variable. -/
theorem Reached.closes_kept : ∃ s' value cell,
    (Session.new Native.all .reliable 0).run (.paced [⟨100, id, 0⟩])
      "var f; \x7b var x = 1; func g() \x7b return x; \x7d f = g; \x7d" = some (.ok value, s') ∧
    s'.machine.heap.cells[0]? = some cell ∧ ∃ v, cell = .closed v := by
  have hchecked : (Session.new Native.all .reliable 0).returns (.paced [⟨100, id, 0⟩])
      "var f; \x7b var x = 1; func g() \x7b return x; \x7d f = g; \x7d"
      (fun s' => (s'.machine.heap.cells[0]?).isSome) = true := by
    decide +kernel
  obtain ⟨value, s', hrun, hsome⟩ := exists_of_returns hchecked
  obtain ⟨cell, hcell⟩ := Option.isSome_iff_exists.1 hsome
  obtain ⟨_, _, L, -, -, -, hcells⟩ := Reached.closes_cells (.new .reliable 0) hrun
  obtain ⟨v, hv, -⟩ := hcells 0 cell hcell
  exact ⟨s', value, cell, hrun, hcell, v, hv⟩

/-- Whether a run fails and leaves a closure in a global variable with a captured variable on the
stack, and a later run returns a value. -/
def leavesOpen (name first second : String) (check : Session → Bool) : Bool :=
  match (Session.new Native.all .reliable 0).run (.limited 100) first with
  | some (.error (.fault _), s) =>
    match s.global? name with
    | some (.closureRef closure) =>
      match (s.machine.heap.closure closure).captures[0]? with
      | some cell =>
        match s.machine.heap.cell cell with
        | .openAt _ => s.drain.returns (.limited 100) second check
        | _ => false
      | _ => false
    | _ => false
  | _ => false

/-- **A run that fails leaves a captured variable without a place**: the closure in a global
variable still has a cell for a stack slot, and a later run prints what it has in that slot. -/
theorem failed_run_leaves_open : ∃ fault s closure cell slot value s',
    (Session.new Native.all .reliable 0).run (.limited 100)
      "var f; \x7b var x = 1; func g() \x7b return x; \x7d f = g; nil(); \x7d"
      = some (.error (.fault fault), s) ∧
    s.global? "f" = some (.closureRef closure) ∧
    (s.machine.heap.closure closure).captures[0]? = some cell ∧
    s.machine.heap.cell cell = .openAt slot ∧
    s.drain.run (.limited 100) "print f();" = some (.ok value, s') ∧ s'.output = "<fn g>\n" := by
  have hchecked : leavesOpen "f"
      "var f; \x7b var x = 1; func g() \x7b return x; \x7d f = g; nil(); \x7d" "print f();"
      (fun s' => decide (s'.output = "<fn g>\n")) = true := by
    decide +kernel
  unfold leavesOpen at hchecked
  split at hchecked
  · next fault s hrun =>
    split at hchecked
    · next closure hglobal =>
      split at hchecked
      · next cell hcell =>
        split at hchecked
        · next slot hopen =>
          obtain ⟨value, s', hprint, houtput⟩ := exists_of_returns hchecked
          exact ⟨fault, s, closure, cell, slot, value, s', hrun, hglobal, hcell, hopen, hprint,
            of_decide_eq_true houtput⟩
        · cases hchecked
      · cases hchecked
    · cases hchecked
  · cases hchecked

end Session

end ScriptVM
