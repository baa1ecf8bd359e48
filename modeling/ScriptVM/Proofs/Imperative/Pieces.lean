/-
# Pieces of imperative code

What pieces of code do on a machine that stands in front of them.  `Computes` is the code of an
expression, which leaves its value on top, and `Performs` that of a statement, which may declare
variables.  There is one lemma for each way to put code together; how code is built plays no part.
-/
import ScriptVM.Proofs.Imperative.Simulation
import ScriptVM.Proofs.Syntax.Account

namespace ScriptVM

/-! ## Variables of a store -/

namespace Store

variable {name : String} {v w : Value} {above below : Scope} {s : Store} {j : Nat}

theorem flatten_names (s : Store) : s.names.flatten = s.scopes.flatten.map (·.1) := by
  rw [names, List.map_flatten]

/-- The variable in a slot that belongs to a name. -/
theorem exists_of_slotOf {scope : Scope} (h : slotOf name (scope.map (·.1)) = some j) :
    ∃ above v below, scope = above ++ (name, v) :: below ∧ name ∉ above.map (·.1) ∧
      below.length = j := by
  induction scope with
  | nil => cases h
  | cons entry rest ih =>
    rw [List.map_cons, slotOf] at h
    split at h
    · next hname =>
      refine ⟨[], entry.2, rest, ?_, List.not_mem_nil, ?_⟩
      · rw [← hname]
        rfl
      · rw [← Option.some.inj h, List.length_map]
    · next hname =>
      obtain ⟨above, v, below, rfl, hnone, hlength⟩ := ih h
      refine ⟨entry :: above, v, below, rfl, ?_, hlength⟩
      rw [List.map_cons, List.mem_cons, not_or]
      exact ⟨Ne.symm hname, hnone⟩

/-- A scope without a name does not find it. -/
theorem lookup_eq_none {scope : Scope} (h : name ∉ scope.map (·.1)) : scope.lookup name = none :=
  List.lookup_eq_none_iff.2 fun entry hentry => by
    rw [bne_iff_ne]
    rintro rfl
    exact h (List.mem_map_of_mem hentry)

theorem lookup_append_cons (h : name ∉ above.map (·.1)) :
    (above ++ (name, v) :: below).lookup name = some v := by
  rw [List.lookup_append, lookup_eq_none h, Option.none_or, List.lookup_cons_self]

/-- The newest variable of a name is the one that is replaced. -/
theorem replace_append_cons (h : name ∉ above.map (·.1)) :
    replace name w (above ++ (name, v) :: below) = above ++ (name, w) :: below := by
  induction above with
  | nil => exact if_pos rfl
  | cons entry above ih =>
    rw [List.map_cons, List.mem_cons, not_or] at h
    rw [List.cons_append, replace, if_neg (Ne.symm h.1), ih h.2]
    rfl

/-- Replacing a value keeps the names of a scope. -/
theorem map_fst_replace (name : String) (w : Value) (scope : Scope) :
    (replace name w scope).map (·.1) = scope.map (·.1) := by
  induction scope with
  | nil => rfl
  | cons entry rest ih =>
    rw [replace]
    split
    · next hname => rw [List.map_cons, List.map_cons, hname]
    · rw [List.map_cons, ih, List.map_cons]

/-- A name that no scope has is replaced nowhere. -/
theorem replaceIn?_eq_none {scopes : List Scope} (h : name ∉ scopes.flatten.map (·.1)) :
    replaceIn? name w scopes = none := by
  induction scopes with
  | nil => rfl
  | cons scope rest ih =>
    rw [List.flatten_cons, List.map_append, List.mem_append, not_or] at h
    rw [replaceIn?, if_neg h.1, ih h.2]
    rfl

/-- The innermost variable of a name gets another value, and nothing else changes. -/
theorem exists_replaceIn? {scopes : List Scope}
    (hflatten : scopes.flatten = above ++ (name, v) :: below) (hnone : name ∉ above.map (·.1)) :
    ∃ scopes', replaceIn? name w scopes = some scopes' ∧
      scopes'.flatten = above ++ (name, w) :: below ∧
      scopes'.map (·.map (·.1)) = scopes.map (·.map (·.1)) := by
  induction scopes generalizing above with
  | nil => simp at hflatten
  | cons scope rest ih =>
    rw [List.flatten_cons] at hflatten
    rw [replaceIn?]
    split
    · next hmem =>
      -- The variable is one of this block, so the block goes beyond what stands above it.
      obtain ⟨inner, rfl⟩ : ∃ inner, scope = above ++ (name, v) :: inner := by
        rcases List.append_eq_append_iff.1 hflatten with ⟨more, habove, -⟩ | ⟨inner, hscope, hrest⟩
        · rw [habove, List.map_append, List.mem_append, not_or] at hnone
          exact absurd hmem hnone.1
        · cases inner with
          | nil =>
            rw [List.append_nil] at hscope
            rw [hscope] at hmem
            exact absurd hmem hnone
          | cons entry inner =>
            obtain ⟨rfl, -⟩ := List.cons.inj hrest
            exact ⟨inner, hscope⟩
      obtain rfl : inner ++ rest.flatten = below := by simpa using hflatten
      refine ⟨_, rfl, ?_, ?_⟩
      · rw [List.flatten_cons, replace_append_cons hnone, List.append_assoc, List.cons_append]
      · rw [List.map_cons, List.map_cons, map_fst_replace]
    · next hmem =>
      obtain ⟨above', rfl, hrest⟩ : ∃ above', above = scope ++ above' ∧
          rest.flatten = above' ++ (name, v) :: below := by
        rcases List.append_eq_append_iff.1 hflatten with ⟨more, habove, hrest⟩ |
          ⟨inner, hscope, hrest⟩
        · exact ⟨more, habove, hrest⟩
        · cases inner with
          | nil =>
            rw [List.append_nil] at hscope
            exact ⟨[], by rw [hscope, List.append_nil], hrest.symm⟩
          | cons entry inner =>
            obtain ⟨rfl, -⟩ := List.cons.inj hrest
            rw [hscope, List.map_append, List.mem_append, not_or] at hmem
            exact absurd List.mem_cons_self hmem.2
      rw [List.map_append, List.mem_append, not_or] at hnone
      obtain ⟨scopes', hreplace, hflatten', hnames⟩ := ih hrest hnone.2
      refine ⟨scope :: scopes', by rw [hreplace]; rfl, ?_, ?_⟩
      · rw [List.flatten_cons, hflatten', List.append_assoc]
      · rw [List.map_cons, List.map_cons, hnames]

end Store

/-! ## Local variables on the machine -/

namespace Script.Stands

variable {p : Script} {names : List (List String)} {ip j : Nat} {temps : List Value} {s : Store}
  {m : Machine} {name : String} {v : Value}

/-- **A local variable is found in its slot.** -/
theorem read (h : p.Stands names ip temps s m) (hslot : slotOf name names.flatten = some j) :
    ∃ v, s.local? name = some v ∧ Exec.getSlot (j + 1) m = .ok v m ∧ v.hasInstance = false := by
  rw [← h.names, Store.flatten_names] at hslot
  obtain ⟨above, v, below, hscopes, hnone, rfl⟩ := Store.exists_of_slotOf hslot
  have hslots : s.slots = above.map (·.2) ++ v :: below.map (·.2) := by
    rw [Store.slots, hscopes, List.map_append, List.map_cons]
  refine ⟨v, ?_, Exec.getSlot_eq ?_, h.slots v (by simp [hslots])⟩
  · rw [Store.local?, hscopes, Store.lookup_append_cons hnone]
  · have hvalues : m.values = temps ++ above.map (·.2) ++
        (v :: (below.map (·.2) ++ [.closureRef p.closure])) := by
      rw [h.values, hslots]
      simp
    rw [hvalues]
    refine slot?_append_of_some ?_
    rw [show below.length + 1 = (below.map (·.2) ++ [Value.closureRef p.closure]).length by simp]
    exact slot?_cons_length _ _

/-- **A local variable is assigned in its slot.** -/
theorem write (h : p.Stands names ip temps s m) (hslot : slotOf name names.flatten = some j)
    (hv : v.hasInstance = false) :
    ∃ scopes m', Store.replaceIn? name v s.scopes = some scopes ∧
      Exec.setSlot (j + 1) v m = .ok () m' ∧ p.Stands names ip temps { s with scopes } m' := by
  rw [← h.names, Store.flatten_names] at hslot
  obtain ⟨above, w, below, hscopes, hnone, rfl⟩ := Store.exists_of_slotOf hslot
  obtain ⟨scopes, hreplace, hscopes', hnames⟩ := Store.exists_replaceIn? (w := v) hscopes hnone
  have hslots : s.slots = above.map (·.2) ++ w :: below.map (·.2) := by
    rw [Store.slots, hscopes, List.map_append, List.map_cons]
  have hslots' : Store.slots { s with scopes } = above.map (·.2) ++ v :: below.map (·.2) := by
    rw [Store.slots, hscopes', List.map_append, List.map_cons]
  have hvalues : m.stack.down = (temps ++ above.map (·.2)) ++
      w :: (below.map (·.2) ++ [.closureRef p.closure]) := by
    rw [← Machine.values, h.values, hslots]
    simp
  have hdown := Stack.down_replace (y := v) hvalues (i := below.length + 1) (by simp)
  have hlt : below.length + 1 < m.stack.size := by
    rw [← Stack.length_down, hvalues]
    simp
    omega
  refine ⟨scopes, _, hreplace, if_pos hlt, { h with
    values := ?_
    names := hnames.trans h.names
    slots := ?_ }⟩
  · show (m.stack.replace (below.length + 1) v).down = _
    rw [hdown, hslots']
    simp
  · intro u hu
    have hplain := h.slots
    rw [hslots'] at hu
    rw [hslots] at hplain
    rcases List.mem_append.1 hu with hu | hu
    · exact hplain u (List.mem_append_left _ hu)
    · rcases List.mem_cons.1 hu with rfl | hu
      · exact hv
      · exact hplain u (List.mem_append_right _ (List.mem_cons_of_mem _ hu))

/-- There is no local variable of the name. -/
theorem local?_eq_none (h : p.Stands names ip temps s m)
    (hslot : slotOf name names.flatten = none) :
    s.local? name = none ∧ ∀ w, Store.replaceIn? name w s.scopes = none := by
  rw [slotOf_eq_none, ← h.names, Store.flatten_names] at hslot
  exact ⟨Store.lookup_eq_none hslot, fun w => Store.replaceIn?_eq_none hslot⟩

end Script.Stands

/-! ## Expressions -/

theorem Value.hasInstance_of_isScalar {v : Value} (h : v.isScalar = true) :
    v.hasInstance = false := by
  cases v <;> first | rfl | cases h

/-- **A piece of code computes a value**: wherever it stands in a script that has the constants, it
leaves the value on top of those that are worked on, and goes on behind itself.  It keeps at most a
number of values at a time. -/
def Computes (constants : List Value) (names : List (List String)) (code : Code) (height : Nat)
    (x : Eval Value) : Prop :=
  ∀ ⦃p : Script⦄, constants <+: p.chunk.constants.toList →
    ∀ ⦃ip : Nat⦄ ⦃temps : List Value⦄ ⦃s : Store⦄ ⦃m : Machine⦄ (n : Nat), p.Has ip code →
      p.Stands names ip temps s m →
        m.Meets n (temps.length + slotCount names + height) (x s) fun v s' m' =>
          p.Stands names (ip + code.extent) (v :: temps) s' m'

namespace Computes

variable {K K' : List Value} {names : List (List String)} {a b : Code} {h h₁ h₂ line line' : Nat}
  {x y : Eval Value} {op : Opcode} {i : UInt8} {v : Value} {name : String}

theorem mono (hx : Computes K names a h x) (hK : K <+: K') : Computes K' names a h x :=
  fun _ hp => hx (hK.trans hp)

theorem getElem?_constants {p : Script} (hK : K <+: p.chunk.constants.toList)
    (hv : K[i.toNat]? = some v) : p.chunk.constants[i.toNat]? = some v := by
  rw [← Array.getElem?_toList]
  exact getElem?_of_isPrefix hK hv

/-- A value that has an instruction of its own. -/
theorem push (hop : Exec.execute op = Exec.proceed (Exec.push v)) (hv : v.hasInstance = false) :
    Computes K names [⟨op, [], line⟩] 1 (pure v) := by
  intro p _ ip temps s m n hcode hstands
  refine .of_push (hstands.step hcode.opcode hop) rfl (hstands.moveTo _) hv (Nat.lt_succ_self _) ?_
  exact fun m' hm' => .here hm'

/-- A constant. -/
theorem constant (hi : K[i.toNat]? = some v) (hv : v.hasInstance = false) :
    Computes K names [⟨.constant, [i], line⟩] 1 (pure v) := by
  intro p hK ip temps s m n hcode hstands
  refine .of_push (hstands.step hcode.opcode rfl) ?_ (hstands.moveTo (ip + 2)) hv
    (Nat.lt_succ_self _) fun m' hm' => .here hm'
  rw [Exec.bind_of_ok (hstands.readConstant hcode.operand (getElem?_constants hK hi))]

/-- Reading a local variable. -/
theorem readLocal {j : Nat} (hslot : slotOf name names.flatten = some j) (hi : i.toNat = j + 1) :
    Computes K names [⟨.getLocal, [i], line⟩] 1 (Eval.read name) := by
  intro p _ ip temps s m n hcode hstands
  have hmoved := hstands.moveTo (ip + 2)
  obtain ⟨v, hlocal, hget, hv⟩ := hmoved.read hslot
  have hread : Eval.read name s = some (.ok v, s) := by rw [Eval.read, hlocal]
  rw [hread]
  refine .of_push (hstands.step hcode.opcode rfl) ?_ hmoved hv (Nat.lt_succ_self _)
    fun m' hm' => .here hm'
  rw [Exec.getLocal, Exec.bind_of_ok (hstands.readByte hcode.operand), Exec.bind_of_ok hmoved.frame,
    Nat.zero_add, hi, Exec.bind_of_ok hget]

/-- Reading a global variable. -/
theorem readGlobal (hslot : slotOf name names.flatten = none)
    (hi : K[i.toNat]? = some (.string name)) :
    Computes K names [⟨.getGlobal, [i], line⟩] 1 (Eval.read name) := by
  intro p hK ip temps s m n hcode hstands
  have hmoved := hstands.moveTo (ip + 2)
  have hname := hstands.readName hcode.operand (getElem?_constants hK hi)
  have hget : (MonadState.get : Exec Machine) (m.moveTo (ip + 2)) =
    .ok (m.moveTo (ip + 2)) (m.moveTo (ip + 2)) := rfl
  have hglobals : (m.moveTo (ip + 2)).globals = s.globals := hmoved.globals
  have hstep : Exec.step m = Exec.proceed Exec.getGlobal (m.moveTo (ip + 1)) :=
    hstands.step hcode.opcode rfl
  unfold Eval.read
  rw [(hstands.local?_eq_none hslot).1]
  dsimp only
  split
  · next v hv =>
    refine .of_push hstep ?_ hmoved (hstands.bindings name v hv) (Nat.lt_succ_self _)
      fun m' hm' => .here hm'
    rw [Exec.getGlobal, Exec.bind_of_ok hname, Exec.bind_of_ok hget, hglobals, hv]
  · next hv =>
    have hraise : Exec.getGlobal (m.moveTo (ip + 1)) =
        .error (.runtime (.undefinedVariable name)) (m.moveTo (ip + 2)) := by
      rw [Exec.getGlobal, Exec.bind_of_ok hname, Exec.bind_of_ok hget, hglobals, hv]
      rfl
    exact .of_raise hstep hraise hglobals hmoved.sink

/-! ### Operators -/

/-- The outcome of an operator takes the place of its operands. -/
theorem of_operator {p : Script} {ip n slots : Nat} {temps : List Value} {s : Store}
    {m m₁ m₂ : Machine} {act : Exec Unit} {r : Except ValueError Value}
    (hstep : Exec.step m = Exec.proceed act m₁)
    (hact : act m₁ = (Exec.ofOperator r >>= Exec.push) m₂) (hstands : p.Stands names ip temps s m₂)
    (hr : ∀ v, r = .ok v → v.isScalar = true) (hroom : m₂.stack.size < stackLimit) :
    m.Meets n slots (Eval.ofOperator r s) fun v s' m' => p.Stands names ip (v :: temps) s' m' := by
  cases r with
  | error e => exact .of_raise hstep hact hstands.globals hstands.sink
  | ok v =>
    obtain ⟨m', hpush, hm'⟩ := hstands.push (Value.hasInstance_of_isScalar (hr v rfl)) hroom
    exact .of_succ (.of_act hstep (hact.trans hpush) (.here hm'))

/-- An operator behind its operand. -/
theorem unary {f : Value → Except ValueError Value} (hx : Computes K names a h x)
    (hop : Exec.execute op = Exec.proceed (Exec.applyUnary f))
    (hf : ∀ v w, f v = .ok w → w.isScalar = true) :
    Computes K names (a ++ [⟨op, [], line⟩]) h (do Eval.ofOperator (f (← x))) := by
  intro p hK ip temps s m n hcode hstands
  refine (hx hK n hcode.left hstands).bind fun v s' m' hm' => ?_
  obtain ⟨m₂, hpop, hm₂⟩ := (hm'.moveTo (ip + a.extent + 1)).pop
  have hroom := hm'.size_lt hm₂
  rw [Code.extent_append, ← Nat.add_assoc]
  refine of_operator (hm'.step hcode.right.opcode hop) ?_ hm₂ (hf v) hroom
  rw [Exec.applyUnary, Exec.bind_of_ok hpop]

/-- An operator behind its two operands. -/
theorem binary {f : Value → Value → Except ValueError Value} (hx : Computes K names a h₁ x)
    (hy : Computes K names b h₂ y) (hop : Exec.execute op = Exec.proceed (Exec.applyBinary f))
    (hf : ∀ v w u, f v w = .ok u → u.isScalar = true) :
    Computes K names (a ++ b ++ [⟨op, [], line⟩]) (max h₁ (h₂ + 1)) (do
      let v ← x
      let w ← y
      Eval.ofOperator (f v w)) := by
  intro p hK ip temps s m n hcode hstands
  have hx' := hx hK n hcode.left.left hstands
  refine (hx'.mono (Nat.le_refl _) (by omega) fun _ _ _ => id).bind fun v s₁ m₁ hm₁ => ?_
  have hy' := hy hK n hcode.left.right hm₁
  have hslots : (v :: temps).length + slotCount names + h₂ ≤
      temps.length + slotCount names + max h₁ (h₂ + 1) := by
    rw [List.length_cons]
    omega
  refine (hy'.mono (Nat.le_refl _) hslots fun _ _ _ => id).bind fun w s₂ m₂ hm₂ => ?_
  obtain ⟨m₃, hpop, hm₃⟩ := (hm₂.moveTo (ip + a.extent + b.extent + 1)).pop
  obtain ⟨m₄, hpop', hm₄⟩ := hm₃.pop
  have hroom := hm₃.size_lt hm₄
  have hcode' := hcode.right
  rw [Code.extent_append, ← Nat.add_assoc] at hcode'
  rw [Code.extent_append, Code.extent_append, ← Nat.add_assoc, ← Nat.add_assoc]
  refine of_operator (hm₂.step hcode'.opcode hop) ?_ hm₄ (hf v w) hroom
  rw [Exec.applyBinary, Exec.bind_of_ok hpop, Exec.bind_of_ok hpop']

/-! ### Short cuts -/

/-- `&&`: the second operand is passed over if the first counts as false. -/
theorem conjunction (hx : Computes K names a h₁ x) (hy : Computes K names b h₂ y)
    (hd : Code.extent (⟨.pop, [], line'⟩ :: b) ≤ Chunk.distanceLimit) :
    Computes K names
      (a ++ ⟨.jumpIfFalse, distanceBytes (Code.extent (⟨.pop, [], line'⟩ :: b)), line⟩ ::
        ⟨.pop, [], line'⟩ :: b)
      (max h₁ h₂) (do
        let v ← x
        if v.isFalsey then pure v else y) := by
  intro p hK ip temps s m n hcode hstands
  refine ((hx hK n hcode.left hstands).mono (Nat.le_refl _) (by omega) fun _ _ _ => id).bind
    fun v s₁ m₁ hm₁ => ?_
  have hcode' := hcode.right.tail
  have hend : ip + (a ++ ⟨.jumpIfFalse,
    distanceBytes (Code.extent (⟨.pop, [], line'⟩ :: b)), line⟩ ::
      ⟨.pop, [], line'⟩ :: b).extent =
      ip + a.extent + 3 + Code.extent (⟨.pop, [], line'⟩ :: b) := by
    rw [Code.extent_append, Code.extent_cons]
    simp only [Instruction.size, length_distanceBytes]
    omega
  rw [hend]
  refine .of_succ (.of_jumpIfFalse hm₁ hcode.right hd (fun hv m₂ hm₂ => ?_) fun hv m₂ hm₂ => ?_)
  · rw [if_pos hv]
    exact .here hm₂
  · rw [if_neg (Bool.eq_false_iff.1 hv)]
    refine .of_succ (.of_drop hm₂ hcode' fun m₃ hm₃ => ?_)
    rw [Code.extent_cons, ← Nat.add_assoc]
    exact (hy hK n hcode'.tail hm₃).mono (Nat.le_refl _) (by omega) fun _ _ _ => id

/-- `||`: the second operand is computed if the first counts as false. -/
theorem disjunction (hx : Computes K names a h₁ x) (hy : Computes K names b h₂ y)
    (hd : Code.extent (⟨.pop, [], line'⟩ :: b) ≤ Chunk.distanceLimit) :
    Computes K names
      (a ++ ⟨.jumpIfFalse, distanceBytes 3, line⟩ ::
        ⟨.jump, distanceBytes (Code.extent (⟨.pop, [], line'⟩ :: b)), line⟩ ::
        ⟨.pop, [], line'⟩ :: b)
      (max h₁ h₂) (do
        let v ← x
        if v.isFalsey then y else pure v) := by
  intro p hK ip temps s m n hcode hstands
  refine ((hx hK n hcode.left hstands).mono (Nat.le_refl _) (by omega) fun _ _ _ => id).bind
    fun v s₁ m₁ hm₁ => ?_
  have hjump := hcode.right.tail
  have hcode' := hjump.tail
  have hend : ip + (a ++ ⟨.jumpIfFalse, distanceBytes 3, line⟩ ::
      ⟨.jump, distanceBytes (Code.extent (⟨.pop, [], line'⟩ :: b)), line⟩ ::
      ⟨.pop, [], line'⟩ :: b).extent =
      ip + a.extent + 3 + 3 + Code.extent (⟨.pop, [], line'⟩ :: b) := by
    rw [Code.extent_append, Code.extent_cons, Code.extent_cons]
    simp only [Instruction.size, length_distanceBytes]
    omega
  rw [hend]
  refine .of_succ (.of_jumpIfFalse hm₁ hcode.right (by decide) (fun hv m₂ hm₂ => ?_)
    fun hv m₂ hm₂ => ?_)
  · rw [if_pos hv]
    refine .of_succ (.of_drop hm₂ hcode' fun m₃ hm₃ => ?_)
    rw [Code.extent_cons, ← Nat.add_assoc]
    exact (hy hK n hcode'.tail hm₃).mono (Nat.le_refl _) (by omega) fun _ _ _ => id
  · rw [if_neg (Bool.eq_false_iff.1 hv)]
    exact .of_succ (.of_jump hm₂ hjump hd fun m₃ hm₃ => .here hm₃)

/-! ### Assignments -/

/-- Assigning a local variable. -/
theorem assignLocal {j : Nat} (hx : Computes K names a h x)
    (hslot : slotOf name names.flatten = some j) (hi : i.toNat = j + 1) :
    Computes K names (a ++ [⟨.setLocal, [i], line⟩]) h (do
      let v ← x
      Eval.assign name v
      return v) := by
  intro p hK ip temps s m n hcode hstands
  refine (hx hK n hcode.left hstands).bind fun v s₁ m₁ hm₁ => ?_
  have hmoved := hm₁.moveTo (ip + a.extent + 2)
  obtain ⟨scopes, m₂, hreplace, hset, hm₂⟩ :=
    hmoved.write hslot (hm₁.temps v List.mem_cons_self)
  have hassign : Eval.assign name v s₁ = some (.ok (), { s₁ with scopes }) := by
    rw [Eval.assign, hreplace]
  rw [Eval.bind_of_ok hassign, Code.extent_append, ← Nat.add_assoc]
  have hact : Exec.setLocal (m₁.moveTo (ip + a.extent + 1)) = .ok () m₂ := by
    rw [Exec.setLocal, Exec.bind_of_ok (hm₁.readByte hcode.right.operand),
      Exec.bind_of_ok hmoved.frame, Exec.bind_of_ok hmoved.peek, Nat.zero_add, hi, hset]
  exact .of_succ (.of_act (hm₁.step hcode.right.opcode rfl) hact (.here hm₂))

/-- Assigning a global variable. -/
theorem assignGlobal (hx : Computes K names a h x) (hslot : slotOf name names.flatten = none)
    (hi : K[i.toNat]? = some (.string name)) :
    Computes K names (a ++ [⟨.setGlobal, [i], line⟩]) h (do
      let v ← x
      Eval.assign name v
      return v) := by
  intro p hK ip temps s m n hcode hstands
  refine (hx hK n hcode.left hstands).bind fun v s₁ m₁ hm₁ => ?_
  have hmoved := hm₁.moveTo (ip + a.extent + 2)
  have hname := hm₁.readName hcode.right.operand (getElem?_constants hK hi)
  have hget : (MonadState.get : Exec Machine) (m₁.moveTo (ip + a.extent + 2)) =
    .ok (m₁.moveTo (ip + a.extent + 2)) (m₁.moveTo (ip + a.extent + 2)) := rfl
  have hglobals : (m₁.moveTo (ip + a.extent + 2)).globals = s₁.globals := hmoved.globals
  have hstep : Exec.step m₁ = Exec.proceed Exec.setGlobal (m₁.moveTo (ip + a.extent + 1)) :=
    hm₁.step hcode.right.opcode rfl
  -- Assigning does not declare: without such a global both sides fail, in the same state.
  cases hcontains : s₁.globals.contains name with
  | false =>
    have hassign : Eval.assign name v s₁ = some (.error (.undefinedVariable name), s₁) := by
      rw [Eval.assign, (hm₁.local?_eq_none hslot).2]
      dsimp only
      rw [if_neg (Bool.eq_false_iff.1 hcontains)]
      rfl
    rw [Eval.bind_of_error hassign]
    have hraise : Exec.setGlobal (m₁.moveTo (ip + a.extent + 1)) =
        .error (.runtime (.undefinedVariable name)) (m₁.moveTo (ip + a.extent + 2)) := by
      rw [Exec.setGlobal, Exec.bind_of_ok hname, Exec.bind_of_ok hget, hglobals, hcontains]
      rfl
    exact .of_raise hstep hraise hglobals hmoved.sink
  | true =>
    have hassign : Eval.assign name v s₁ =
        some (.ok (), { s₁ with globals := s₁.globals.insert name v }) := by
      rw [Eval.assign, (hm₁.local?_eq_none hslot).2]
      dsimp only
      rw [if_pos hcontains]
    have hm₂ : p.Stands names (ip + a.extent + 2) (v :: temps)
        { s₁ with globals := s₁.globals.insert name v }
        { m₁.moveTo (ip + a.extent + 2) with globals := m₁.globals.insert name v } :=
      { hmoved with
        globals := by rw [hm₁.globals]
        bindings := hmoved.bindings.insert (hm₁.temps v List.mem_cons_self) }
    rw [Eval.bind_of_ok hassign, Code.extent_append, ← Nat.add_assoc]
    refine .of_succ (.of_act hstep ?_ (.here hm₂))
    rw [Exec.setGlobal, Exec.bind_of_ok hname, Exec.bind_of_ok hget, hglobals, hcontains,
      Bool.not_true, if_neg Bool.false_ne_true]
    exact Exec.bind_of_ok hmoved.peek

end Computes

/-! ## Statements -/

/-- **A piece of code performs a statement**: wherever it stands in a script that has the constants,
it does what the statement does with nothing to work on, and goes on behind itself.  The variables
may be others then. -/
def Performs (constants : List Value) (display : Value → String) (names names' : List (List String))
    (code : Code) (height : Nat) (act : Nat → Eval Unit) : Prop :=
  ∀ ⦃p : Script⦄, constants <+: p.chunk.constants.toList → (∀ v, v.display p.heap = display v) →
    ∀ ⦃ip : Nat⦄ ⦃s : Store⦄ ⦃m : Machine⦄ (n : Nat), p.Has ip code → p.Stands names ip [] s m →
      m.Meets n (slotCount names + height) (act n s) fun _ s' m' =>
        p.Stands names' (ip + code.extent) [] s' m'

/-- Forgets the variables of the innermost block. -/
def Eval.leaveBlock : Eval Unit := fun s =>
  some (.ok (), { s with scopes := s.scopes.tail })

namespace Performs

variable {K K' : List Value} {display : Value → String} {names names₁ names₂ : List (List String)}
  {scope : List String} {a b c : Code} {h h' h₁ h₂ line line' : Nat} {x : Eval Value}
  {act act' : Nat → Eval Unit} {i : UInt8} {name : String}

theorem mono (hact : Performs K display names names₁ a h act) (hK : K <+: K') :
    Performs K' display names names₁ a h act :=
  fun _ hp => hact (hK.trans hp)

/-- An expression in front of an instruction. -/
theorem of_computes {p : Script} {ip n : Nat} {s : Store} {m : Machine} {f : Value → Eval Unit}
    {Q : Unit → Store → Machine → Prop} (hx : Computes K names a h x)
    (hK : K <+: p.chunk.constants.toList) (hcode : p.Has ip a) (hstands : p.Stands names ip [] s m)
    (hf : ∀ v s' m', p.Stands names (ip + a.extent) [v] s' m' →
      m'.Meets n (slotCount names + h) (f v s') Q) :
    m.Meets n (slotCount names + h) ((x >>= f) s) Q := by
  have hx' := hx hK n hcode hstands
  rw [List.length_nil, Nat.zero_add] at hx'
  exact hx'.bind hf

/-- Printing a value. -/
theorem print (hx : Computes K names a h x) :
    Performs K display names names (a ++ [⟨.print, [], line⟩]) h (fun _ => do
      Eval.writeLine (display (← x))) := by
  intro p hK hdisplay ip s m n hcode hstands
  refine of_computes hx hK hcode.left hstands fun v s₁ m₁ hm₁ => ?_
  obtain ⟨m₂, hpop, hm₂⟩ := (hm₁.moveTo (ip + a.extent + 1)).pop
  have hdescribe := Exec.describe_pieces .print v (hm₁.temps v List.mem_cons_self) "" [] m₂
  rw [List.append_nil, String.empty_append, hm₂.heap, hdisplay] at hdescribe
  rw [Code.extent_append, ← Nat.add_assoc]
  have hm₃ : p.Stands names (ip + a.extent + 1) []
      { s₁ with sink := s₁.sink.write (display v ++ "\n") }
      { m₂ with sink := m₂.sink.write (display v ++ "\n") } :=
    { hm₂ with sink := by rw [hm₂.sink] }
  refine .of_succ (.of_act (hm₁.step hcode.right.opcode rfl) ?_ (.here hm₃))
  rw [Exec.print, Exec.bind_of_ok hpop, hdescribe]
  rfl

/-- Dropping a value. -/
theorem drop (hx : Computes K names a h x) :
    Performs K display names names (a ++ [⟨.pop, [], line⟩]) h (fun _ => do
      let _ ← x) := by
  intro p hK _ ip s m n hcode hstands
  refine of_computes hx hK hcode.left hstands fun v s₁ m₁ hm₁ => ?_
  rw [Code.extent_append, ← Nat.add_assoc]
  exact .of_succ (.of_drop hm₁ hcode.right fun m₂ hm₂ => .here hm₂)

/-- Declaring a local variable: its value stays where it is. -/
theorem declareLocal (hx : Computes K (scope :: names) a h x) :
    Performs K display (scope :: names) ((name :: scope) :: names) a h (fun _ => do
      Eval.declare name (← x)) := by
  intro p hK _ ip s m n hcode hstands
  refine of_computes hx hK hcode hstands fun v s₁ m₁ hm₁ => ?_
  obtain ⟨inner, scopes, hscopes, -, -⟩ := List.map_eq_cons_iff.1 hm₁.names
  have hdeclare : Eval.declare name v s₁ =
      some (.ok (), { s₁ with scopes := ((name, v) :: inner) :: scopes }) := by
    rw [Eval.declare, hscopes]
  have hslots : Store.slots { s₁ with scopes := ((name, v) :: inner) :: scopes } =
    v :: s₁.slots := by
    rw [Store.slots, Store.slots, hscopes]
    rfl
  have hnames := hm₁.names
  rw [Store.names, hscopes, List.map_cons] at hnames
  obtain ⟨hinner, houter⟩ := List.cons.inj hnames
  rw [hdeclare]
  refine .here { hm₁ with
    values := by rw [hm₁.values, hslots]; rfl
    names := ?_
    temps := fun _ hv => absurd hv List.not_mem_nil
    slots := ?_ }
  · rw [Store.names, List.map_cons, List.map_cons, hinner, houter]
  · rw [hslots]
    exact List.forall_mem_cons.2 ⟨hm₁.temps v List.mem_cons_self, hm₁.slots⟩

/-- Declaring a global variable. -/
theorem declareGlobal (hx : Computes K [] a h x) (hi : K[i.toNat]? = some (.string name)) :
    Performs K display [] [] (a ++ [⟨.defineGlobal, [i], line⟩]) h (fun _ => do
      Eval.declare name (← x)) := by
  intro p hK _ ip s m n hcode hstands
  refine of_computes hx hK hcode.left hstands fun v s₁ m₁ hm₁ => ?_
  have hname := hm₁.readName hcode.right.operand (Computes.getElem?_constants hK hi)
  obtain ⟨m₂, hpop, hm₂⟩ := (hm₁.moveTo (ip + a.extent + 2)).pop
  have hdeclare : Eval.declare name v s₁ =
      some (.ok (), { s₁ with globals := s₁.globals.insert name v }) := by
    rw [Eval.declare, List.map_eq_nil_iff.1 hm₁.names]
  have hm₃ : p.Stands [] (ip + a.extent + 2) []
      { s₁ with globals := s₁.globals.insert name v }
      { m₂ with globals := m₂.globals.insert name v } :=
    { hm₂ with
      globals := by rw [hm₂.globals]
      bindings := hm₂.bindings.insert (hm₁.temps v List.mem_cons_self) }
  rw [hdeclare, Code.extent_append, ← Nat.add_assoc]
  refine .of_succ (.of_act (hm₁.step hcode.right.opcode rfl) ?_ (.here hm₃))
  rw [Exec.defineGlobal, Exec.bind_of_ok hname, Exec.bind_of_ok hpop]
  rfl

/-- No code. -/
theorem nil : Performs K display names names [] 0 fun _ => pure () :=
  fun _ _ _ _ _ _ _ _ hstands => .here hstands

/-- One statement after another. -/
theorem append (hact : Performs K display names names₁ a h₁ act)
    (hact' : Performs K display names₁ names₂ b h₂ act') (hle : h₁ ≤ h)
    (hle' : slotCount names₁ + h₂ ≤ slotCount names + h) :
    Performs K display names names₂ (a ++ b) h (fun n => do
      act n
      act' n) := by
  intro p hK hdisplay ip s m n hcode hstands
  refine ((hact hK hdisplay n hcode.left hstands).mono (Nat.le_refl _) (by omega)
    fun _ _ _ => id).bind fun _ s₁ m₁ hm₁ => ?_
  rw [Code.extent_append, ← Nat.add_assoc]
  exact (hact' hK hdisplay n hcode.right hm₁).mono (Nat.le_refl _) hle' fun _ _ _ => id

/-! ### Blocks -/

section

variable {p : Script} {ip n slots : Nat} {temps : List Value} {s : Store} {m : Machine}
  {outcome : Option (Except RuntimeError Unit × Store)} {Q R : Unit → Store → Machine → Prop}

/-- The code that drops a number of values. -/
def drops (count line : Nat) : Code :=
  List.replicate count ⟨.pop, [], line⟩

/-- As many bytes as variables are dropped. -/
theorem extent_drops (count line : Nat) : (drops count line).extent = count := by
  induction count with
  | zero => rfl
  | succ count ih =>
    rw [drops, List.replicate_succ, Code.extent_cons, ← drops, ih]
    exact Nat.add_comm 1 count

/-- Some values are dropped one by one. -/
theorem of_drops {dropped : List Value} (hstands : p.Stands names ip (dropped ++ temps) s m)
    (hcode : p.Has ip (drops dropped.length line))
    (hrest : ∀ m', p.Stands names (ip + dropped.length) temps s m' → m'.Meets n slots outcome Q) :
    m.Meets n slots outcome Q := by
  induction dropped generalizing ip m with
  | nil => exact hrest m hstands
  | cons v dropped ih =>
    rw [List.length_cons, drops, List.replicate_succ] at hcode
    refine .of_succ (.of_drop hstands hcode fun m' hm' => ih hm' hcode.tail fun m'' hm'' => ?_)
    refine hrest m'' ?_
    rw [List.length_cons, Nat.add_comm dropped.length, ← Nat.add_assoc]
    exact hm''

/-- What holds at the end of a block holds once its variables are forgotten. -/
theorem of_inBlock {x : Eval Unit}
    (hx : m.Meets n slots (x { s with scopes := [] :: s.scopes }) Q)
    (hrest : ∀ s' m', Q () s' m' → m'.Meets n slots (Eval.leaveBlock s') R) :
    m.Meets n slots (Eval.inBlock x s) R := by
  have hbind := hx.bind (f := fun _ => Eval.leaveBlock) fun _ => hrest
  rcases houtcome : x { s with scopes := [] :: s.scopes } with _ | ⟨result, s'⟩
  · rw [Eval.bind_of_none houtcome] at hbind
    rw [Eval.inBlock, houtcome]
    exact hbind
  · cases result with
    | ok a =>
      rw [Eval.bind_of_ok houtcome] at hbind
      rw [Eval.inBlock, houtcome]
      exact hbind
    | error e =>
      rw [Eval.bind_of_error houtcome] at hbind
      rw [Eval.inBlock, houtcome]
      exact hbind

end

/-- A block: its variables are dropped at its end. -/
theorem block (hact : Performs K display ([] :: names) (scope :: names) a h act) :
    Performs K display names names (a ++ drops scope.length line) h
      fun n => Eval.inBlock (act n) := by
  intro p hK hdisplay ip s m n hcode hstands
  have hentered : p.Stands ([] :: names) ip [] { s with scopes := [] :: s.scopes } m :=
    { hstands with names := congrArg ([] :: ·) hstands.names }
  refine of_inBlock (hact hK hdisplay n hcode.left hentered) fun s₁ m₁ hm₁ => ?_
  obtain ⟨inner, outer, hscopes, hinner, houter⟩ := List.map_eq_cons_iff.1 hm₁.names
  have hslots : s₁.slots = inner.map (·.2) ++ Store.slots { s₁ with scopes := outer } := by
    rw [Store.slots, hscopes, List.flatten_cons, List.map_append]
    rfl
  have hplain := hm₁.slots
  rw [hslots] at hplain
  have hleft : p.Stands names (ip + a.extent) (inner.map (·.2) ++ [])
    { s₁ with scopes := outer } m₁ :=
    { hm₁ with
      values := by
        rw [hm₁.values, hslots]
        simp
      names := houter
      temps := fun v hv => hplain v (List.mem_append_left _ (by simpa using hv))
      slots := fun v hv => hplain v (List.mem_append_right _ hv) }
  have hlength : (inner.map (·.2)).length = scope.length := by
    rw [← hinner, List.length_map, List.length_map]
  have hcode' := hcode.right
  rw [← hlength] at hcode'
  rw [Eval.leaveBlock, hscopes, List.tail_cons]
  refine of_drops hleft hcode' fun m₂ hm₂ => .here ?_
  rw [Code.extent_append, extent_drops, ← hlength, ← Nat.add_assoc]
  exact hm₂

/-! ### Branches and loops -/

/-- The code of a choice: two pieces that start with a value on top, which counts as false for the
second. -/
def choice (a b : Code) (line : Nat) : Code :=
  ⟨.jumpIfFalse, distanceBytes (a.extent + Chunk.jumpLength), line⟩ ::
    (a ++ ⟨.jump, distanceBytes b.extent, line⟩ :: b)

/-- A choice is as long as its branches and its two jumps. -/
theorem extent_choice (a b : Code) (line : Nat) :
    (choice a b line).extent = 3 + a.extent + 3 + b.extent := by
  rw [choice, Code.extent_cons, Code.extent_append, Code.extent_cons]
  simp only [Instruction.size, length_distanceBytes]
  omega

/-- A conditional statement: the condition is dropped on both branches. -/
theorem branch (hx : Computes K names c h₁ x) (hact : Performs K display names names a h act)
    (hact' : Performs K display names names b h' act')
    (hd : Code.extent (⟨.pop, [], line⟩ :: a) + Chunk.jumpLength ≤ Chunk.distanceLimit)
    (hd' : Code.extent (⟨.pop, [], line⟩ :: b) ≤ Chunk.distanceLimit) :
    Performs K display names names
      (c ++ choice (⟨.pop, [], line⟩ :: a) (⟨.pop, [], line⟩ :: b) line)
      (max (max h₁ h) h') (fun n => do if (← x).isFalsey then act' n else act n) := by
  intro p hK hdisplay ip s m n hcode hstands
  have hx' := hx hK n hcode.left hstands
  rw [List.length_nil, Nat.zero_add] at hx'
  refine (hx'.mono (Nat.le_refl _) (by omega) fun _ _ _ => id).bind fun v s₁ m₁ hm₁ => ?_
  have hchoice := hcode.right
  have hthen := hchoice.tail.left
  have hjump := hchoice.tail.right
  have helse := hjump.tail
  have hend : ip + (c ++ choice (⟨.pop, [], line⟩ :: a) (⟨.pop, [], line⟩ :: b) line).extent =
      ip + c.extent + 3 + Code.extent (⟨.pop, [], line⟩ :: a) + 3 +
        Code.extent (⟨.pop, [], line⟩ :: b) := by
    rw [Code.extent_append, extent_choice]
    omega
  rw [hend]
  refine .of_succ (.of_jumpIfFalse hm₁ hchoice hd (fun hv m₂ hm₂ => ?_) fun hv m₂ hm₂ => ?_)
  · rw [if_pos hv]
    refine .of_succ (.of_drop (a := b) hm₂ helse fun m₃ hm₃ => ?_)
    rw [Code.extent_cons ⟨.pop, [], line⟩ b, ← Nat.add_assoc]
    exact (hact' hK hdisplay n helse.tail hm₃).mono (Nat.le_refl _) (by omega) fun _ _ _ => id
  · rw [if_neg (Bool.eq_false_iff.1 hv)]
    refine .of_succ (.of_drop hm₂ hthen fun m₃ hm₃ => ?_)
    have hact₃ := hact hK hdisplay n hthen.tail hm₃
    rw [← bind_pure (act n)]
    refine (hact₃.mono (Nat.le_refl _) (by omega) fun _ _ _ => id).bind fun _ s₄ m₄ hm₄ => ?_
    rw [Nat.add_assoc _ _ a.extent, ← Code.extent_cons] at hm₄
    exact .of_succ (.of_jump hm₄ hjump hd' fun m₅ hm₅ => .here hm₅)

/-- The code of a repetition: a condition, and a piece that starts with its value on top and ends in
front of the condition again. -/
def repetition (c a : Code) (line : Nat) : Code :=
  c ++ ⟨.jumpIfFalse, distanceBytes (a.extent + Chunk.jumpLength), line⟩ ::
    (a ++ ⟨.loop, distanceBytes
      (c.extent + Chunk.jumpLength + a.extent + Chunk.jumpLength), line⟩ ::
      [⟨.pop, [], line⟩])

/-- A loop: the condition is dropped in each round and at the end. -/
theorem loop (hx : Computes K names c h₁ x) (hact : Performs K display names names a h act)
    (hd : Code.extent (⟨.pop, [], line⟩ :: a) + Chunk.jumpLength ≤ Chunk.distanceLimit)
    (hd' : c.extent + Chunk.jumpLength + Code.extent (⟨.pop, [], line⟩ :: a) + Chunk.jumpLength ≤
      Chunk.distanceLimit) :
    Performs K display names names (repetition c (⟨.pop, [], line⟩ :: a) line) (max h₁ h)
      (Eval.cycle x act) := by
  intro p hK hdisplay ip s m n hcode hstands
  have hjump := hcode.right
  have hbody := hjump.tail.left
  have hloop := hjump.tail.right
  have hend : ip + (repetition c (⟨.pop, [], line⟩ :: a) line).extent =
      ip + c.extent + 3 + (Code.extent (⟨.pop, [], line⟩ :: a) + Chunk.jumpLength) + 1 := by
    simp only [repetition, Code.extent_append, Code.extent_cons, Code.extent_nil, Instruction.size,
      length_distanceBytes, List.length_nil, Chunk.jumpLength]
    omega
  rw [hend]
  -- The rounds are counted down.
  induction n generalizing s m with
  | zero => exact .inr ⟨0, m, Nat.le_refl 0, rfl⟩
  | succ n ih =>
    have hx' := hx hK (n + 1) hcode.left hstands
    rw [List.length_nil, Nat.zero_add] at hx'
    rw [Eval.cycle]
    refine (hx'.mono (Nat.le_refl _) (by omega) fun _ _ _ => id).bind fun v s₁ m₁ hm₁ => ?_
    refine .of_jumpIfFalse hm₁ hjump hd (fun hv m₂ hm₂ => ?_) fun hv m₂ hm₂ => ?_
    · rw [if_pos hv]
      have hpop := hloop.tail
      rw [Nat.add_assoc] at hpop
      exact .of_succ (.of_drop hm₂ hpop fun m₃ hm₃ => .here hm₃)
    · rw [if_neg (Bool.eq_false_iff.1 hv)]
      refine .of_succ (.of_drop hm₂ hbody fun m₃ hm₃ => ?_)
      refine ((hact hK hdisplay n hbody.tail hm₃).mono (Nat.le_refl _) (by omega)
        fun _ _ _ => id).bind fun _ s₄ m₄ hm₄ => ?_
      rw [Nat.add_assoc _ _ a.extent, ← Code.extent_cons] at hm₄
      refine .of_succ (.of_loop hm₄ hloop hd' ?_ fun m₅ hm₅ => ih hm₅)
      simp only [Code.extent_cons, Instruction.size, length_distanceBytes, List.length_nil,
        Chunk.jumpLength]
      omega

end Performs

end ScriptVM
