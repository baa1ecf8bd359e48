/-
# Bounded stacks

A stack that holds at most `capacity` items.  Its view is the array of its items, bottom first;
pushing onto a full stack and reaching below the bottom are errors, never silent.
-/

namespace ScriptVM

/-- What can go wrong with a stack. -/
inductive StackError where
  /-- The stack is full. -/
  | overflow
  /-- There is no item at that place. -/
  | underflow
deriving DecidableEq, Repr, Inhabited

namespace StackError

/-- The message about a stack error. -/
def message : StackError → String
  | .overflow => "stack overflow"
  | .underflow => "stack underflow"

end StackError

/-- A stack of at most `capacity` items. -/
structure Stack (α : Type) (capacity : Nat) where
  /-- The items, bottom first. -/
  items : Array α
  /-- There are never more items than the capacity. -/
  size_le : items.size ≤ capacity

namespace Stack

variable {α : Type} {capacity : Nat}

/-- The stack without items. -/
def empty : Stack α capacity :=
  ⟨#[], Nat.zero_le _⟩

instance : Inhabited (Stack α capacity) := ⟨empty⟩

/-- The number of items. -/
def size (s : Stack α capacity) : Nat :=
  s.items.size

/-- Whether there is no item. -/
def isEmpty (s : Stack α capacity) : Bool :=
  s.items.isEmpty

/-- The items, bottom first. -/
def toList (s : Stack α capacity) : List α :=
  s.items.toList

/-- Puts an item on top of a stack that is not full. -/
def pushOf (s : Stack α capacity) (x : α) (h : s.size < capacity) : Stack α capacity :=
  ⟨s.items.push x, by simp only [size] at h; simp; omega⟩

/-- Puts an item on top. -/
def push (s : Stack α capacity) (x : α) : Except StackError (Stack α capacity) :=
  if h : s.size < capacity then .ok (s.pushOf x h) else .error .overflow

/-- Keeps the lowest `n` items. -/
def truncate (s : Stack α capacity) (n : Nat) : Stack α capacity :=
  ⟨s.items.take n, by have := s.size_le; simp; omega⟩

/-- Drops the item on top, if there is one. -/
def dropTop (s : Stack α capacity) : Stack α capacity :=
  ⟨s.items.pop, by have := s.size_le; simp; omega⟩

/-- The item on top, if there is one. -/
def top? (s : Stack α capacity) : Option α :=
  s.items.back?

/-- Takes the item on top off. -/
def pop (s : Stack α capacity) : Except StackError (α × Stack α capacity) :=
  match s.top? with
  | some x => .ok (x, s.dropTop)
  | none => .error .underflow

/-- The top `n` items, bottom first. -/
def topItems (s : Stack α capacity) (n : Nat) : List α :=
  (s.items.drop (s.size - n)).toList

/-- Takes the top `n` items off; they are given bottom first. -/
def popMany (s : Stack α capacity) (n : Nat) : Except StackError (List α × Stack α capacity) :=
  if n ≤ s.size then .ok (s.topItems n, s.truncate (s.size - n)) else .error .underflow

/-- The item at a place counted from the bottom. -/
def get (s : Stack α capacity) (i : Nat) : Except StackError α :=
  match s.items[i]? with
  | some x => .ok x
  | none => .error .underflow

/-- The item at a distance from the top. -/
def peek (s : Stack α capacity) (distance : Nat) : Except StackError α :=
  if distance < s.size then s.get (s.size - (distance + 1)) else .error .underflow

/-- Replaces the item at a place counted from the bottom, if there is one. -/
def replace (s : Stack α capacity) (i : Nat) (x : α) : Stack α capacity :=
  ⟨s.items.setIfInBounds i x, by simpa using s.size_le⟩

/-- Replaces the item at a place counted from the bottom. -/
def set (s : Stack α capacity) (i : Nat) (x : α) : Except StackError (Stack α capacity) :=
  if i < s.size then .ok (s.replace i x) else .error .underflow

/-- Changes the item on top, if there is one. -/
def modifyTop (s : Stack α capacity) (f : α → α) : Stack α capacity :=
  ⟨s.items.modify (s.size - 1) f, by simpa using s.size_le⟩

/-- Replaces the item on top. -/
def setTop (s : Stack α capacity) (x : α) : Except StackError (Stack α capacity) :=
  if s.size = 0 then .error .underflow else .ok (s.replace (s.size - 1) x)

/-! ## The operations through the view -/

@[simp] theorem toList_empty : (empty : Stack α capacity).toList = [] := rfl

@[simp] theorem size_empty : (empty : Stack α capacity).size = 0 := rfl

@[simp] theorem length_toList (s : Stack α capacity) : s.toList.length = s.size := by
  simp [toList, size]

/-- A push succeeds just if there is room, and puts the item on top. -/
theorem push_eq_ok_iff {s t : Stack α capacity} {x : α} :
    s.push x = .ok t ↔ s.size < capacity ∧ t.toList = s.toList ++ [x] := by
  unfold push
  split
  · constructor
    · rintro ⟨⟩
      exact ⟨by assumption, by simp [toList, pushOf]⟩
    · rintro ⟨_, h⟩
      cases t
      simp only [toList, pushOf, Except.ok.injEq, Stack.mk.injEq] at h ⊢
      exact Array.toList_inj.1 (by simp [h])
  · simp
    omega

@[simp] theorem toList_pushOf (s : Stack α capacity) (x : α) (h : s.size < capacity) :
    (s.pushOf x h).toList = s.toList ++ [x] := by
  simp [pushOf, toList]

@[simp] theorem toList_dropTop (s : Stack α capacity) : s.dropTop.toList = s.toList.dropLast := by
  simp [dropTop, toList]

@[simp] theorem toList_replace (s : Stack α capacity) (i : Nat) (x : α) :
    (s.replace i x).toList = s.toList.set i x := by
  simp [replace, toList]

theorem top?_eq (s : Stack α capacity) : s.top? = s.toList.getLast? := by
  simp [top?, toList]

@[simp] theorem size_replace (s : Stack α capacity) (i : Nat) (x : α) :
    (s.replace i x).size = s.size := by
  simp [replace, size]

@[simp] theorem toList_truncate (s : Stack α capacity) (n : Nat) :
    (s.truncate n).toList = s.toList.take n := by
  simp [truncate, toList]

end Stack

end ScriptVM
