/-
# Imperative code on the machine

What a piece of code does to a machine, in terms of what a program does to a store.

`Script.Stands` relates the two: the values of the local variables are on the stack in their order,
below the values that are being worked on, and the global variables and the output are the same.
`Machine.Meets` says that a machine comes to what the store says, with one exception: it may run out
of room on its stack.  A program without an outcome in time keeps the machine going for at least as
many steps.

`Computes` is the code of an expression, and `Performs` that of a statement.  There is one lemma for
each way to put code together, and nothing here refers to how code is built.
-/
import ScriptVM.Proofs.Imperative.Evaluation
import ScriptVM.Proofs.Machine.Steps

namespace ScriptVM

/-! ## Descriptions -/

mutual

/-- Whether there is an instance in a value. -/
def Value.hasInstance : Value → Bool
  | .instanceRef _ | .bound _ _ => true
  | .array elements => Value.anyInstance elements
  | _ => false

/-- Whether there is an instance in some value of a list. -/
def Value.anyInstance : List Value → Bool
  | [] => false
  | v :: vs => v.hasInstance || Value.anyInstance vs

end

mutual

/-- **A value without instances is described by how it is shown.** -/
theorem Exec.describe_pieces (purpose : Purpose) (v : Value) (h : v.hasInstance = false)
    (done : String) (rest : List Piece) (m : Machine) :
    describe purpose done (v.pieces ++ rest) m =
      describe purpose (done ++ v.display m.heap) rest m := by
  cases v with
  | array elements =>
    have helements := describe_piecesOfEach purpose elements h (done ++ "[") (.text "]" :: rest) m
    rw [Value.pieces, List.cons_append, List.cons_append, List.append_assoc, List.singleton_append,
      describe, helements, describe, Value.display, Value.bracketed]
    simp only [String.append_assoc]
  | instanceRef => cases h
  | bound => cases h
  | _ => rfl

/-- The texts of the values of an array are put together in order. -/
theorem Exec.describe_piecesOfEach (purpose : Purpose) (vs : List Value)
    (h : Value.anyInstance vs = false) (done : String) (rest : List Piece) (m : Machine) :
    describe purpose done (List.intercalate [.text ", "] (Value.piecesOfEach vs) ++ rest) m =
      describe purpose (done ++ String.intercalate ", " (Value.displayList m.heap vs)) rest m := by
  cases vs with
  | nil =>
    rw [Value.displayList, String.intercalate_nil, String.append_empty]
    rfl
  | cons v vs =>
    rw [Value.anyInstance, Bool.or_eq_false_iff] at h
    have hfirst := fun rest => describe_pieces purpose v h.1 done rest m
    cases vs with
    | nil =>
      rw [Value.displayList, Value.displayList, String.intercalate_singleton, ← hfirst]
      simp [Value.piecesOfEach, List.intercalate]
    | cons w vs =>
      have hrest := describe_piecesOfEach purpose (w :: vs) h.2
        (done ++ v.display m.heap ++ ", ") rest m
      rw [Value.piecesOfEach, Value.piecesOfEach, List.intercalate_cons_cons, ← Value.piecesOfEach,
        List.append_assoc, List.append_assoc, hfirst, List.singleton_append, describe, hrest]
      simp only [Value.displayList, String.intercalate_cons_cons, String.append_assoc]

end

/-! ## What a machine comes to -/

namespace Machine

/-- A run can be taken in two parts. -/
theorem advance_add {m m' : Machine} {k : Nat} (h : m.advance k = .running m') (n : Nat) :
    m.advance (k + n) = m'.advance n := by
  induction k generalizing m with
  | zero =>
    obtain rfl : m = m' := by injection h
    rw [Nat.zero_add]
  | succ k ih =>
    rw [Nat.succ_add, advance]
    rw [advance] at h
    split at h
    · next m₁ hstep => exact ih h
    · cases h
    · cases h

/-- A machine runs out of room: it has to keep one more value on a stack that is full. -/
def Overflows (m : Machine) : Prop :=
  ∃ k m', m.advance k = .failed (.runtime .stackOverflow) m' ∧ m'.stack.size = stackLimit

/-- **A machine comes to an outcome**: it goes on as a condition says, or fails with the error and
the store of the outcome, or runs for a number of steps if there is no outcome.  Instead it may run
out of room, if a number of slots is more than there are. -/
def Meets {α : Type} (m : Machine) (steps slots : Nat)
    (outcome : Option (Except RuntimeError α × Store)) (Q : α → Store → Machine → Prop) : Prop :=
  (stackLimit < slots ∧ m.Overflows) ∨
    match outcome with
    | some (.ok a, s) => ∃ k m', m.advance k = .running m' ∧ Q a s m'
    | some (.error e, s) => ∃ k m', m.advance k = .failed (.runtime e) m' ∧
        m'.globals = s.globals ∧ m'.sink = s.sink
    | none => ∃ k m', steps ≤ k ∧ m.advance k = .running m'

namespace Meets

variable {α β : Type} {m m' : Machine} {n slots : Nat} {a : α} {s : Store} {e : RuntimeError}
  {outcome : Option (Except RuntimeError α × Store)} {Q : α → Store → Machine → Prop}

theorem here (h : Q a s m) : m.Meets n slots (some (.ok a, s)) Q :=
  .inr ⟨0, m, rfl, h⟩

/-- One more step in front. -/
theorem of_step (hstep : Exec.step m = .ok none m') (h : m'.Meets n slots outcome Q) :
    m.Meets (n + 1) slots outcome Q := by
  have hadvance : ∀ k, m.advance (k + 1) = m'.advance k := fun k => by rw [advance, hstep]
  rcases h with ⟨hslots, k, m₁, hk, hfull⟩ | h
  · exact .inl ⟨hslots, k + 1, m₁, (hadvance k).trans hk, hfull⟩
  · refine .inr ?_
    split at h
    · obtain ⟨k, m₁, hk, hQ⟩ := h
      exact ⟨k + 1, m₁, (hadvance k).trans hk, hQ⟩
    · obtain ⟨k, m₁, hk, hs⟩ := h
      exact ⟨k + 1, m₁, (hadvance k).trans hk, hs⟩
    · obtain ⟨k, m₁, hn, hk⟩ := h
      exact ⟨k + 1, m₁, Nat.succ_le_succ hn, (hadvance k).trans hk⟩

theorem of_error (hstep : Exec.step m = .error (.runtime e) m') (hglobals : m'.globals = s.globals)
    (hsink : m'.sink = s.sink) : m.Meets n slots (some (.error e, s)) Q :=
  .inr ⟨1, m', by rw [advance, hstep], hglobals, hsink⟩

theorem of_full (hslots : stackLimit < slots) (hfull : m'.stack.size = stackLimit)
    (hstep : Exec.step m = .error (.runtime .stackOverflow) m') : m.Meets n slots outcome Q :=
  .inl ⟨hslots, 1, m', by rw [advance, hstep], hfull⟩

/-- What a machine meets is met with more steps, more slots and a weaker outcome. -/
theorem mono {n' slots' : Nat} {Q' : α → Store → Machine → Prop} (h : m.Meets n slots outcome Q)
    (hn : n' ≤ n) (hslots : slots ≤ slots') (hQ : ∀ a s m', Q a s m' → Q' a s m') :
    m.Meets n' slots' outcome Q' := by
  rcases h with ⟨hlt, h⟩ | h
  · exact .inl ⟨Nat.lt_of_lt_of_le hlt hslots, h⟩
  · refine .inr ?_
    split at h
    · obtain ⟨k, m₁, hk, h⟩ := h
      exact ⟨k, m₁, hk, hQ _ _ _ h⟩
    · exact h
    · obtain ⟨k, m₁, hle, hk⟩ := h
      exact ⟨k, m₁, Nat.le_trans hn hle, hk⟩

/-- **One part of a program after another.** -/
theorem bind {x : Eval α} {f : α → Eval β} {R : β → Store → Machine → Prop}
    (h : m.Meets n slots (x s) Q)
    (hf : ∀ a s' m', Q a s' m' → m'.Meets n slots (f a s') R) :
    m.Meets n slots ((x >>= f) s) R := by
  rcases h with h | h
  · exact .inl h
  · split at h
    · next hx =>
      obtain ⟨k, m₁, hk, hQ⟩ := h
      rw [Eval.bind_of_ok hx]
      rcases hf _ _ _ hQ with ⟨hslots, k', m₂, hk', hfull⟩ | hrest
      · exact .inl ⟨hslots, k + k', m₂, (advance_add hk k').trans hk', hfull⟩
      · refine .inr ?_
        split at hrest
        · obtain ⟨k', m₂, hk', hR⟩ := hrest
          exact ⟨k + k', m₂, (advance_add hk k').trans hk', hR⟩
        · obtain ⟨k', m₂, hk', hs⟩ := hrest
          exact ⟨k + k', m₂, (advance_add hk k').trans hk', hs⟩
        · obtain ⟨k', m₂, hn, hk'⟩ := hrest
          exact ⟨k + k', m₂, Nat.le_trans hn (Nat.le_add_left _ _), (advance_add hk k').trans hk'⟩
    · next hx =>
      rw [Eval.bind_of_error hx]
      exact .inr h
    · next hx =>
      rw [Eval.bind_of_none hx]
      exact .inr h

end Meets

end Machine

/-! ## Scripts -/

/-- The number of slots of local variables and of the callee below them. -/
def slotCount (names : List (List String)) : Nat :=
  names.flatten.length + 1

/-- A script that has been started: the objects, and its closure among them. -/
structure Script where
  /-- The objects. -/
  heap : Heap
  /-- The closure that is called. -/
  closure : ClosureId

namespace Script

variable {p : Script} {ip : Nat} {a b : Code} {i : Instruction} {op : Opcode} {x y : UInt8}
  {operands : List UInt8} {line : Nat}

/-- The code of a script. -/
def chunk (p : Script) : Chunk :=
  (p.heap.functionOf p.closure).chunk

/-- A piece of code stands at an offset. -/
def Has (p : Script) (ip : Nat) (code : Code) : Prop :=
  ∀ i byte, code.bytes[i]? = some byte → p.chunk.code[ip + i]? = some byte

namespace Has

theorem left (h : p.Has ip (a ++ b)) : p.Has ip a := by
  intro i byte hi
  refine h i byte ?_
  rw [Code.bytes_append, List.getElem?_append_left (List.getElem?_eq_some_iff.1 hi).1, hi]

/-- Code that is there has its second part behind its first. -/
theorem right (h : p.Has ip (a ++ b)) : p.Has (ip + a.extent) b := by
  intro i byte hi
  rw [Nat.add_assoc]
  refine h (a.extent + i) byte ?_
  rw [Code.bytes_append, Code.extent, List.getElem?_append_right (Nat.le_add_right _ _),
    Nat.add_sub_cancel_left, hi]

theorem tail (h : p.Has ip (i :: a)) : p.Has (ip + i.size) a := by
  have hright := right (a := [i]) (b := a) h
  rwa [Code.extent_cons, Code.extent_nil] at hright

theorem opcode (h : p.Has ip (⟨op, operands, line⟩ :: a)) : p.chunk.code[ip]? = some op.toByte :=
  h 0 op.toByte rfl

theorem operand (h : p.Has ip (⟨op, x :: operands, line⟩ :: a)) :
    p.chunk.code[ip + 1]? = some x :=
  h 1 x rfl

theorem operand' (h : p.Has ip (⟨op, x :: y :: operands, line⟩ :: a)) :
    p.chunk.code[ip + 2]? = some y :=
  h 2 y rfl

end Has

/-- **A machine stands at an offset of a script**, and works on some values. -/
structure Stands (p : Script) (names : List (List String)) (ip : Nat) (temps : List Value)
    (s : Store) (m : Machine) : Prop where
  /-- The objects stay. -/
  heap : m.heap = p.heap
  /-- The script is called, and nothing else. -/
  calls : m.calls = [⟨p.closure, ip, 0, .finish⟩]
  /-- The variables are in their slots. -/
  values : m.values = temps ++ s.slots ++ [.closureRef p.closure]
  /-- The global variables are the same. -/
  globals : m.globals = s.globals
  /-- The output is the same. -/
  sink : m.sink = s.sink
  /-- The names of the variables are known. -/
  names : s.names = names
  /-- No instance is worked on. -/
  temps : ∀ v ∈ temps, v.hasInstance = false
  /-- No instance is in a local variable. -/
  slots : ∀ v ∈ s.slots, v.hasInstance = false
  /-- No instance is in a global variable. -/
  bindings : s.globals.All (·.hasInstance = false)

namespace Stands

variable {names : List (List String)} {temps : List Value} {s : Store} {m m₁ m₂ m' : Machine}
  {v : Value} {act : Exec Unit}

/-- The stack holds the temporary values and the variables. -/
theorem size_stack (h : p.Stands names ip temps s m) :
    m.stack.size = temps.length + slotCount names := by
  have hslots : s.slots.length = names.flatten.length := by
    rw [← h.names, Store.slots, Store.names, List.length_map, ← List.map_flatten, List.length_map]
  rw [m.size_stack, h.values, List.length_append, List.length_append, hslots]
  rfl

/-- Where a value was taken off there is room for one. -/
theorem size_lt {ip' : Nat} {s' : Store} (h : p.Stands names ip (v :: temps) s m)
    (h' : p.Stands names ip' temps s' m') : m'.stack.size < stackLimit := by
  have hle : m.stack.size ≤ stackLimit := m.stack.size_le
  rw [h.size_stack, List.length_cons] at hle
  rw [h'.size_stack]
  omega

theorem moveTo (h : p.Stands names ip temps s m) (ip' : Nat) :
    p.Stands names ip' temps s (m.moveTo ip') :=
  { h with calls := Machine.calls_moveTo h.calls ip' }

/-- A value is pushed onto the temporary values. -/
theorem push (h : p.Stands names ip temps s m) (hv : v.hasInstance = false)
    (hroom : m.stack.size < stackLimit) :
    ∃ m', Exec.push v m = .ok () m' ∧ p.Stands names ip (v :: temps) s m' := by
  refine ⟨{ m with stack := m.stack.pushOf v hroom }, dif_pos hroom, { h with
    values := ?_
    temps := List.forall_mem_cons.2 ⟨hv, h.temps⟩ }⟩
  show (m.stack.pushOf v hroom).down = _
  rw [Stack.down_pushOf, ← Machine.values, h.values]
  rfl

/-- The newest temporary value is popped. -/
theorem pop (h : p.Stands names ip (v :: temps) s m) :
    ∃ m', Exec.pop m = .ok v m' ∧ p.Stands names ip temps s m' := by
  have htop : m.stack.top? = some v := by
    rw [Stack.top?_eq_head?, ← Machine.values, h.values]
    rfl
  refine ⟨{ m with stack := m.stack.dropTop }, by rw [Exec.pop, htop], { h with
    values := ?_
    temps := (List.forall_mem_cons.1 h.temps).2 }⟩
  show m.stack.dropTop.down = _
  rw [Stack.down_dropTop, ← Machine.values, h.values]
  rfl

theorem peek (h : p.Stands names ip (v :: temps) s m) : Exec.peek 0 m = .ok v m :=
  Exec.peek_eq (by rw [h.values]; rfl)

/-! ### Steps -/

/-- The code of the call in progress is the script. -/
theorem chunkOf (h : p.Stands names ip temps s m) :
    Exec.chunkOf m ⟨p.closure, ip, 0, .finish⟩ = p.chunk := by
  rw [Exec.chunkOf, h.heap, chunk]

/-- The instruction at hand is carried out. -/
theorem step (h : p.Stands names ip temps s m) (hop : p.chunk.code[ip]? = some op.toByte)
    (hact : Exec.execute op = Exec.proceed act) :
    Exec.step m = Exec.proceed act (m.moveTo (ip + 1)) := by
  rw [← h.chunkOf] at hop
  rw [Exec.step, Exec.bind_of_ok (Exec.readOpcode_eq h.calls hop), hact]

/-- An operand byte is read, and the machine stands behind it. -/
theorem readByte (h : p.Stands names ip temps s m) {ip' : Nat}
    (hbyte : p.chunk.code[ip']? = some x) :
    Exec.readByte (m.moveTo ip') = .ok x (m.moveTo (ip' + 1)) := by
  rw [← h.chunkOf] at hbyte
  exact Exec.readByte_eq h.calls hbyte

/-- A distance is read, and the machine stands behind it. -/
theorem readShort (h : p.Stands names ip temps s m) {ip' : Nat} (hx : p.chunk.code[ip']? = some x)
    (hy : p.chunk.code[ip' + 1]? = some y) :
    Exec.readShort (m.moveTo ip') = .ok (distanceOf x y) (m.moveTo (ip' + 2)) := by
  rw [← h.chunkOf] at hx hy
  exact Exec.readShort_eq h.calls hx hy

/-- A constant is read, and the machine stands behind its index. -/
theorem readConstant (h : p.Stands names ip temps s m) {ip' : Nat}
    (hbyte : p.chunk.code[ip']? = some x)
    (hv : p.chunk.constants[x.toNat]? = some v) :
    Exec.readConstant (m.moveTo ip') = .ok v (m.moveTo (ip' + 1)) := by
  rw [← h.chunkOf] at hbyte hv
  exact Exec.readConstant_eq h.calls hbyte hv

/-- A name is read, and the machine stands behind its index. -/
theorem readName (h : p.Stands names ip temps s m) {ip' : Nat} {name : String}
    (hbyte : p.chunk.code[ip']? = some x)
    (hname : p.chunk.constants[x.toNat]? = some (.string name)) :
    Exec.readName (m.moveTo ip') = .ok name (m.moveTo (ip' + 1)) := by
  rw [← h.chunkOf] at hbyte hname
  exact Exec.readName_eq h.calls hbyte hname

theorem frame (h : p.Stands names ip temps s m) :
    Exec.frame m = .ok ⟨p.closure, ip, 0, .finish⟩ m :=
  Exec.frame_eq h.calls

end Stands

end Script

theorem Exec.goTo_moveTo (m : Machine) (ip ip' : Nat) :
    goTo ip' (m.moveTo ip) = .ok () (m.moveTo ip') := by
  show EStateM.Result.ok () ((m.moveTo ip).moveTo ip') = _
  rw [Machine.moveTo_moveTo]

namespace Machine.Meets

variable {α : Type} {m m₁ m₂ : Machine} {n slots : Nat} {s s' : Store} {e : RuntimeError}
  {outcome : Option (Except RuntimeError α × Store)} {Q : α → Store → Machine → Prop}
  {act : Exec Unit} {p : Script} {names : List (List String)} {ip : Nat} {temps : List Value}
  {v : Value}

theorem of_succ (h : m.Meets (n + 1) slots outcome Q) : m.Meets n slots outcome Q :=
  h.mono (Nat.le_succ n) (Nat.le_refl _) fun _ _ _ => id

/-- An instruction that succeeds. -/
theorem of_act (hstep : Exec.step m = Exec.proceed act m₁) (hact : act m₁ = .ok () m₂)
    (h : m₂.Meets n slots outcome Q) : m.Meets (n + 1) slots outcome Q :=
  of_step (hstep.trans (Exec.bind_of_ok hact)) h

/-- An instruction that fails. -/
theorem of_raise (hstep : Exec.step m = Exec.proceed act m₁)
    (hact : act m₁ = .error (.runtime e) m₂) (hglobals : m₂.globals = s.globals)
    (hsink : m₂.sink = s.sink) : m.Meets n slots (some (.error e, s)) Q := by
  have hfails : Exec.step m = .error (.runtime e) m₂ := by
    rw [hstep]
    show EStateM.bind act _ m₁ = _
    rw [EStateM.bind, hact]
  exact of_error hfails hglobals hsink

/-- An instruction that puts a value onto the stack, if there is room. -/
theorem of_push (hstep : Exec.step m = Exec.proceed act m₁) (hact : act m₁ = Exec.push v m₂)
    (h : p.Stands names ip temps s' m₂) (hv : v.hasInstance = false)
    (hroom : temps.length + slotCount names < slots)
    (hrest : ∀ m', p.Stands names ip (v :: temps) s' m' → m'.Meets n slots outcome Q) :
    m.Meets n slots outcome Q := by
  rcases Nat.lt_or_ge m₂.stack.size stackLimit with hlt | hfull
  · obtain ⟨m', hpush, hstands⟩ := h.push hv hlt
    exact of_succ (of_act hstep (hact.trans hpush) (hrest m' hstands))
  · have hsize : m₂.stack.size = stackLimit := Nat.le_antisymm m₂.stack.size_le hfull
    have herror : Exec.push v m₂ = .error (.runtime .stackOverflow) m₂ :=
      dif_neg (Nat.not_lt.2 hfull)
    have hslots : stackLimit < slots := by
      rw [← hsize, h.size_stack]
      exact hroom
    have hfails : Exec.step m = .error (.runtime .stackOverflow) m₂ := by
      rw [hstep]
      show EStateM.bind act _ m₁ = _
      rw [EStateM.bind, hact, herror]
    exact of_full hslots hsize hfails

/-! ### Jumps and drops -/

variable {line d : Nat} {a : Code}

/-- The value on top is dropped. -/
theorem of_drop (hstands : p.Stands names ip (v :: temps) s' m)
    (hcode : p.Has ip (⟨.pop, [], line⟩ :: a))
    (hrest : ∀ m', p.Stands names (ip + 1) temps s' m' → m'.Meets n slots outcome Q) :
    m.Meets (n + 1) slots outcome Q := by
  obtain ⟨m', hpop, hm'⟩ := (hstands.moveTo (ip + 1)).pop
  refine of_act (hstands.step hcode.opcode rfl) ?_ (hrest m' hm')
  rw [Exec.bind_of_ok hpop]
  rfl

/-- The machine goes on elsewhere. -/
theorem of_jump (hstands : p.Stands names ip temps s' m)
    (hcode : p.Has ip (⟨.jump, distanceBytes d, line⟩ :: a)) (hd : d ≤ Chunk.distanceLimit)
    (hrest : ∀ m', p.Stands names (ip + 3 + d) temps s' m' → m'.Meets n slots outcome Q) :
    m.Meets (n + 1) slots outcome Q := by
  refine of_act (hstands.step hcode.opcode rfl) ?_ (hrest _ (hstands.moveTo _))
  rw [Exec.jump, Exec.bind_of_ok (hstands.readShort hcode.operand hcode.operand'),
    Exec.bind_of_ok (hstands.moveTo (ip + 3)).frame, distanceOf_distanceBytes hd]
  exact Exec.goTo_moveTo m _ _

/-- The machine goes on elsewhere if the value on top counts as false. -/
theorem of_jumpIfFalse (hstands : p.Stands names ip (v :: temps) s' m)
    (hcode : p.Has ip (⟨.jumpIfFalse, distanceBytes d, line⟩ :: a)) (hd : d ≤ Chunk.distanceLimit)
    (hfalse : v.isFalsey = true →
      ∀ m', p.Stands names (ip + 3 + d) (v :: temps) s' m' → m'.Meets n slots outcome Q)
    (htrue : v.isFalsey = false →
      ∀ m', p.Stands names (ip + 3) (v :: temps) s' m' → m'.Meets n slots outcome Q) :
    m.Meets (n + 1) slots outcome Q := by
  have hmoved := hstands.moveTo (ip + 3)
  have hstep : Exec.step m = Exec.proceed Exec.jumpIfFalse (m.moveTo (ip + 1)) :=
    hstands.step hcode.opcode rfl
  have hshort := hstands.readShort hcode.operand hcode.operand'
  cases hv : v.isFalsey with
  | true =>
    refine of_act hstep ?_ (hfalse hv _ (hstands.moveTo _))
    rw [Exec.jumpIfFalse, Exec.bind_of_ok hshort, Exec.bind_of_ok hmoved.peek, if_pos hv,
      Exec.bind_of_ok hmoved.frame, distanceOf_distanceBytes hd]
    exact Exec.goTo_moveTo m _ _
  | false =>
    refine of_act hstep ?_ (htrue hv _ hmoved)
    rw [Exec.jumpIfFalse, Exec.bind_of_ok hshort, Exec.bind_of_ok hmoved.peek,
      if_neg (Bool.eq_false_iff.1 hv)]
    rfl

/-- The machine goes back. -/
theorem of_loop {start : Nat} (hstands : p.Stands names ip temps s' m)
    (hcode : p.Has ip (⟨.loop, distanceBytes d, line⟩ :: a)) (hd : d ≤ Chunk.distanceLimit)
    (hstart : ip + 3 = start + d)
    (hrest : ∀ m', p.Stands names start temps s' m' → m'.Meets n slots outcome Q) :
    m.Meets (n + 1) slots outcome Q := by
  refine of_act (hstands.step hcode.opcode rfl) ?_ (hrest _ (hstands.moveTo _))
  rw [Exec.loop, Exec.bind_of_ok (hstands.readShort hcode.operand hcode.operand'),
    Exec.bind_of_ok (hstands.moveTo (ip + 3)).frame, distanceOf_distanceBytes hd]
  dsimp only
  rw [if_pos (by omega), show ip + 3 - d = start by omega]
  exact Exec.goTo_moveTo m _ _

end Machine.Meets

end ScriptVM
