/-
# What parts of runs do

`Exec.Ensures` says that a part of a run never finds the code broken, and what holds if it succeeds
or fails.  Stacks are looked at topmost first (`Machine.values`, `Machine.calls`), and the
operations on them that cannot go wrong are given by their outcomes.
-/
import ScriptVM.Proofs.Machine.World
import ScriptVM.Session

namespace ScriptVM

/-! ## Parts of runs -/

/-- A machine whose objects and global variables are as they should, whatever is on its stacks. -/
def Machine.Survives (ground : Ground) (m : Machine) : Prop :=
  ∃ W : World, W.toGround = ground ∧ m.heap.Ok W ∧ m.globals.All (Value.Ok W)

namespace Exec

/-- A part of a run never finds the code broken, if no cell of an earlier run is open, and a
condition holds if it succeeds.  If it fails, the objects and global variables are as they
should. -/
def Ensures {α : Type} (ground : Ground) (x : Exec α) (m : Machine)
    (Q : α → Machine → Prop) : Prop :=
  match x m with
  | .ok a m' => Q a m'
  | .error fault m' => (Trusted ground.stale → ∃ e, fault = .runtime e) ∧ m'.Survives ground

section

variable {α β : Type} {ground : Ground} {x : Exec α} {m m' : Machine} {f : α → Exec β}
  {a : α} {P : α → Machine → Prop} {Q : β → Machine → Prop}

theorem Ensures.of_eq (h : x m = .ok a m') (hP : P a m') : Ensures ground x m P := by
  rw [Ensures, h]
  exact hP

theorem Ensures.raise {e : RuntimeError} (h : m.Survives ground) : Ensures ground (raise e) m P :=
  ⟨fun _ => ⟨e, rfl⟩, h⟩

/-- Broken code is found only if a cell of an earlier run is open. -/
theorem Ensures.defect {e : Defect} (hstale : ¬Trusted ground.stale) (h : m.Survives ground) :
    Ensures ground (defect e) m P :=
  ⟨fun htrusted => absurd htrusted hstale, h⟩

/-- What is ensured of the outcome may say less. -/
theorem Ensures.imp {P' : α → Machine → Prop} (h : Ensures ground x m P)
    (hP : ∀ a m', P a m' → P' a m') : Ensures ground x m P' := by
  unfold Ensures at h ⊢
  split at h
  · exact hP _ _ h
  · exact h

/-- Two parts of a run ensure what they do one behind the other. -/
theorem Ensures.bind (h : Ensures ground x m P) (hf : ∀ a m', P a m' → Ensures ground (f a) m' Q) :
    Ensures ground (x >>= f) m Q := by
  simp only [Ensures, Bind.bind, EStateM.bind] at h ⊢
  split at h
  · next hx =>
    rw [hx]
    exact hf _ _ h
  · next hx =>
    rw [hx]
    exact h

/-- A part whose outcome is known. -/
theorem Ensures.bind_of_eq (h : x m = .ok a m') (hf : Ensures ground (f a) m' Q) :
    Ensures ground (x >>= f) m Q :=
  (Ensures.of_eq (P := fun b m'' => b = a ∧ m'' = m') h ⟨rfl, rfl⟩).bind
    fun _ _ ⟨ha, hm⟩ => ha ▸ hm ▸ hf

theorem Ensures.bind_raise {e : RuntimeError} (h : m.Survives ground) :
    Ensures ground (Exec.raise e >>= f) m Q :=
  ⟨fun _ => ⟨e, rfl⟩, h⟩

/-- Looking at the heap. -/
theorem Ensures.bind_heap {g : Heap → Exec β} (h : Ensures ground (g m.heap) m Q) :
    Ensures ground (heap >>= g) m Q :=
  bind_of_eq (x := heap) rfl h

/-- Looking at the whole machine. -/
theorem Ensures.bind_get {g : Machine → Exec β} (h : Ensures ground (g m) m Q) :
    Ensures ground (get >>= g) m Q :=
  bind_of_eq (x := get) rfl h

/-- Changing the machine. -/
theorem Ensures.bind_modify {g : Machine → Machine} {k : Unit → Exec β}
    (h : Ensures ground (k ()) (g m) Q) : Ensures ground (modify g >>= k) m Q :=
  bind_of_eq (x := modify g) rfl h

/-- An operator that fails has not found the code broken. -/
theorem Ensures.ofOperator {r : Except ValueError α} (hm : m.Survives ground)
    (h : ∀ a, r = .ok a → P a m) : Ensures ground (ofOperator r) m P := by
  cases r with
  | error e => exact Ensures.raise hm
  | ok a => exact h a rfl

end

end Exec

/-! ## Stacks, topmost first -/

/-- The slots of a stack are counted from its other end. -/
theorem slot?_eq_getElem?_reverse {α : Type} (l : List α) (i : Nat) :
    slot? l i = l.reverse[i]? := by
  induction l with
  | nil => rfl
  | cons x rest ih =>
    rw [slot?, ih, List.reverse_cons, List.getElem?_append, List.length_reverse]
    split
    · next h => simp [h]
    · next h =>
      split
      · rfl
      · rw [List.getElem?_eq_none (by simp; omega), List.getElem?_eq_none (by simp; omega)]

theorem slot?_reverse {α : Type} (l : List α) (i : Nat) : slot? l.reverse i = l[i]? := by
  rw [slot?_eq_getElem?_reverse, List.reverse_reverse]

theorem exists_slot? {α : Type} {l : List α} {i : Nat} (h : i < l.length) :
    ∃ x, slot? l i = some x := by
  rw [slot?_eq_getElem?_reverse, List.getElem?_eq_getElem (by simpa using h)]
  exact ⟨_, rfl⟩

/-- The upper items are those of the upper part. -/
theorem slot?_append_right {α : Type} (X Y : List α) (i : Nat) :
    slot? (X ++ Y) (Y.length + i) = slot? X i := by
  rw [slot?_eq_getElem?_reverse, slot?_eq_getElem?_reverse, List.reverse_append,
    List.getElem?_append_right (by simp), List.length_reverse, Nat.add_sub_cancel_left]

namespace Stack

variable {α : Type} {capacity : Nat} {s : Stack α capacity} {x : α} {X Y : List α} {n i : Nat}

/-- The items, topmost first. -/
def down (s : Stack α capacity) : List α :=
  s.toList.reverse

theorem length_down (s : Stack α capacity) : s.down.length = s.size := by
  simp [down]

@[simp] theorem down_empty : (empty : Stack α capacity).down = [] := rfl

@[simp] theorem down_pushOf (h : s.size < capacity) : (s.pushOf x h).down = x :: s.down := by
  simp [down]

theorem top?_eq_head? (s : Stack α capacity) : s.top? = s.down.head? := by
  rw [top?_eq, down, List.head?_reverse]

theorem down_dropTop (s : Stack α capacity) : s.dropTop.down = s.down.tail := by
  rw [down, toList_dropTop, down, List.tail_reverse]

theorem slot?_down (s : Stack α capacity) (i : Nat) : slot? s.down i = s.items[i]? := by
  rw [down, slot?_reverse, toList, Array.getElem?_toList]

theorem down_truncate (h : s.down = X ++ Y) (hn : n = Y.length) : (s.truncate n).down = Y := by
  have hlist : s.toList = Y.reverse ++ X.reverse := by
    rw [← List.reverse_append, ← h, down, List.reverse_reverse]
  rw [down, toList_truncate, hlist, hn, List.take_left' List.length_reverse, List.reverse_reverse]

/-- The items on top of a stack, lowest first. -/
theorem topItems_eq (h : s.down = X ++ Y) (hn : n = X.length) : s.topItems n = X.reverse := by
  have hlist : s.items.toList = Y.reverse ++ X.reverse := by
    rw [← List.reverse_append, ← h, down, toList, List.reverse_reverse]
  have hsize : s.size - n = Y.reverse.length := by
    rw [← length_down, h, hn]
    simp
  rw [topItems, hsize, Array.drop, Array.toList_extract, List.extract_eq_take_drop, hlist,
    List.drop_left, List.take_of_length_le]
  rw [← Array.length_toList, hlist]
  simp

/-- Only the item on top is changed. -/
theorem down_modifyTop {f : α → α} {rest : List α} (h : s.down = x :: rest) :
    (s.modifyTop f).down = f x :: rest := by
  have hlist : s.items.toList = rest.reverse ++ [x] := by
    rw [← List.reverse_cons, ← h, down, toList, List.reverse_reverse]
  have hsize : s.size - 1 = rest.reverse.length := by
    rw [← length_down, h]
    simp
  have hmodify : (rest.reverse ++ [x]).modify rest.reverse.length f = rest.reverse ++ [f x] :=
    List.modifyTailIdx_add (List.modifyHead f) 0 rest.reverse [x]
  rw [modifyTop, down, toList, Array.toList_modify, hlist, hsize, hmodify]
  simp

/-- A stack is its items. -/
theorem ext_items {s t : Stack α capacity} (h : s.items = t.items) : s = t := by
  cases s
  cases t
  cases h
  rfl

/-- Two changes of the item on top are one. -/
theorem modifyTop_modifyTop (s : Stack α capacity) (f g : α → α) :
    (s.modifyTop f).modifyTop g = s.modifyTop (g ∘ f) := by
  refine ext_items (Array.ext_getElem? fun i => ?_)
  have hsize : (s.modifyTop f).size = s.size := by simp [modifyTop, size]
  rw [modifyTop, Array.getElem?_modify, hsize, modifyTop, modifyTop, Array.getElem?_modify,
    Array.getElem?_modify]
  split
  · rw [Option.map_map]
  · rfl

/-- A change that leaves the item on top leaves the stack. -/
theorem modifyTop_eq_self {f : α → α} {rest : List α} (h : s.down = x :: rest) (hf : f x = x) :
    s.modifyTop f = s := by
  have hdown : (s.modifyTop f).down = s.down := by rw [down_modifyTop h, hf, h]
  refine ext_items (Array.toList_inj.1 ?_)
  exact List.reverse_inj.1 hdown

theorem get_eq_ok (h : slot? s.down i = some x) : s.get i = .ok x := by
  rw [slot?_down] at h
  rw [Stack.get, h]

/-- An item at a distance from the top is the one that is looked at. -/
theorem peek_eq_ok (h : s.down[i]? = some x) : s.peek i = .ok x := by
  have hlt : i < s.size := by
    rw [← length_down]
    exact (List.getElem?_eq_some_iff.1 h).1
  have hget : slot? s.down (s.size - (i + 1)) = some x := by
    rw [slot?_eq_getElem?_reverse, List.getElem?_reverse (by rw [length_down]; omega), length_down,
      show s.size - 1 - (s.size - (i + 1)) = i by omega, h]
  rw [Stack.peek, if_pos hlt, get_eq_ok hget]

end Stack

/-! ## Views of a machine -/

namespace Machine

variable {m m' : Machine} {f : Frame} {rest : List Frame}

/-- The values on the stack, topmost first. -/
def values (m : Machine) : List Value :=
  m.stack.down

/-- The calls in progress, innermost first. -/
def calls (m : Machine) : List Frame :=
  m.frames.down

theorem size_stack (m : Machine) : m.stack.size = m.values.length :=
  (Stack.length_down _).symm

/-- The machine that goes on at another offset. -/
def moveTo (m : Machine) (ip : Nat) : Machine :=
  { m with frames := m.frames.modifyTop fun f => { f with ip } }

theorem calls_moveTo (h : m.calls = f :: rest) (ip : Nat) :
    (m.moveTo ip).calls = { f with ip } :: rest :=
  Stack.down_modifyTop h

/-- Only the last place to which a machine moves matters. -/
@[simp] theorem moveTo_moveTo (m : Machine) (ip ip' : Nat) :
    (m.moveTo ip).moveTo ip' = m.moveTo ip' := by
  unfold moveTo
  congr 1
  exact Stack.modifyTop_modifyTop _ _ _

theorem moveTo_self (h : m.calls = f :: rest) : m.moveTo f.ip = m := by
  unfold moveTo
  rw [Stack.modifyTop_eq_self h rfl]

/-- A machine with one more value on its stack, and the same otherwise. -/
structure Pushed (m : Machine) (v : Value) (m' : Machine) : Prop where
  /-- The value is on top. -/
  values : m'.values = v :: m.values
  /-- The objects are the same. -/
  heap : m'.heap = m.heap
  /-- The global variables are the same. -/
  globals : m'.globals = m.globals
  /-- The open cells are the same. -/
  openCells : m'.openCells = m.openCells
  /-- The calls are the same. -/
  calls : m'.calls = m.calls

end Machine

namespace Exec

variable {ground : Ground} {m : Machine} {f : Frame} {rest : List Frame} {v : Value}
  {values : List Value} {n : Nat}

/-! ## Operations whose outcome is known -/

theorem bind_of_ok {α β : Type} {x : Exec α} {f : α → Exec β} {m m' : Machine} {a : α}
    (h : x m = .ok a m') : (x >>= f) m = f a m' := by
  show EStateM.bind x f m = f a m'
  rw [EStateM.bind, h]

/-- A value is pushed, if there is room for it. -/
theorem ensures_push (hm : m.Survives ground) (v : Value) :
    Ensures ground (push v) m fun _ m' => m.Pushed v m' := by
  unfold Ensures push
  by_cases h : m.stack.size < stackLimit
  · rw [dif_pos h]
    exact ⟨Stack.down_pushOf h, rfl, rfl, rfl, rfl⟩
  · rw [dif_neg h]
    exact ⟨fun _ => ⟨_, rfl⟩, hm⟩

/-- The value on top is popped. -/
theorem ensures_pop (h : m.values = v :: values) :
    Ensures ground pop m fun a m' => a = v ∧ m'.Pushed v m := by
  have htop : m.stack.top? = some v := by
    rw [Stack.top?_eq_head?]
    exact congrArg List.head? h
  unfold Ensures pop
  rw [htop]
  refine ⟨rfl, ⟨?_, rfl, rfl, rfl, rfl⟩⟩
  show m.values = v :: m.stack.dropTop.down
  rw [Stack.down_dropTop, show m.stack.down = v :: values from h]
  exact h

theorem peek_eq (h : m.values[n]? = some v) : peek n m = .ok v m := by
  show (ofStack (m.stack.peek n) : Exec Value) m = .ok v m
  rw [Stack.peek_eq_ok h]
  rfl

/-- A closure and the class below it. -/
theorem classMember_eq {id : ClassId} {member : ClosureId}
    (h : m.values = .closureRef member :: .classRef id :: values) :
    classMember m = .ok (id, member) m := by
  rw [classMember, bind_of_ok (peek_eq (congrArg (·[0]?) h))]
  dsimp only
  rw [bind_of_ok (peek_eq (congrArg (·[1]?) h))]
  rfl

theorem getSlot_eq (h : slot? m.values n = some v) : getSlot n m = .ok v m := by
  show (ofStack (m.stack.get n) : Exec Value) m = .ok v m
  rw [Stack.get_eq_ok h]
  rfl

/-- The callee is in the slot below the arguments. -/
theorem calleeSlot_eq {arguments : UInt8} (h : m.values.length = arguments.toNat + 1 + n) :
    calleeSlot arguments m = .ok n m := by
  have hsize := m.size_stack
  show (if arguments.toNat < m.stack.size then pure (m.stack.size - (arguments.toNat + 1))
    else defect .stackUnderflow : Exec Nat) m = .ok n m
  rw [if_pos (by omega), show m.stack.size - (arguments.toNat + 1) = n by omega]
  rfl

/-- The innermost call is the one that runs. -/
theorem frame_eq (h : m.calls = f :: rest) : frame m = .ok f m := by
  have htop : m.frames.top? = some f := by
    rw [Stack.top?_eq_head?]
    exact congrArg List.head? h
  unfold frame
  rw [htop]

/-- The innermost call is left. -/
theorem popFrame_eq (h : m.calls = f :: rest) :
    popFrame m = .ok f { m with frames := m.frames.dropTop } := by
  have htop : m.frames.top? = some f := by
    rw [Stack.top?_eq_head?]
    exact congrArg List.head? h
  unfold popFrame
  rw [htop]

/-- A call is made, if there is room for it. -/
theorem ensures_pushFrame (hm : m.Survives ground) (f : Frame) :
    Ensures ground (pushFrame f) m fun _ m' =>
      ∃ h, m' = { m with frames := m.frames.pushOf f h } := by
  unfold Ensures pushFrame
  by_cases h : m.frames.size < frameLimit
  · rw [dif_pos h]
    exact ⟨h, rfl⟩
  · rw [dif_neg h]
    exact ⟨fun _ => ⟨_, rfl⟩, hm⟩

/-- A code byte is read at the offset that the call in progress has come to. -/
theorem readByte_eq {byte : UInt8} (h : m.calls = f :: rest)
    (hbyte : (m.heap.functionOf f.closure).chunk.code[n]? = some byte) :
    readByte (m.moveTo n) = .ok byte (m.moveTo (n + 1)) := by
  have hframe := frame_eq (Machine.calls_moveTo h n)
  have hheap : heap (m.moveTo n) = .ok m.heap (m.moveTo n) := rfl
  rw [readByte, bind_of_ok hframe, bind_of_ok hheap]
  dsimp only
  rw [hbyte]
  show EStateM.Result.ok byte ((m.moveTo n).moveTo (n + 1)) = _
  rw [Machine.moveTo_moveTo]

/-- A code byte is read where the call in progress stands. -/
theorem readByte_eq_of_ip {byte : UInt8} (h : m.calls = f :: rest)
    (hbyte : (m.heap.functionOf f.closure).chunk.code[f.ip]? = some byte) :
    readByte m = .ok byte (m.moveTo (f.ip + 1)) := by
  have hread := readByte_eq h hbyte
  rwa [Machine.moveTo_self h] at hread

end Exec

end ScriptVM
