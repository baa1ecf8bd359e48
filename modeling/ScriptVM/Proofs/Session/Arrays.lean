/-
# Arrays are lists that grow

Instructions whose outcome the code of the prelude decides are run along that code: from the literal
of an array to the instance that holds its elements (`Machine.AboutTo.comes_literal`), and from
the uses of an instance that holds a list to what the list says (`Machine.lists`).  A history of an
array is its literal, the calls of `append`, and in between whatever leaves its two fields alone
(`Machine.Grown`); by induction on it the instance holds the elements of the literal and those that
have been added.

A use of a name is a use of the class only if no field of the instance hides the name, and the
number of elements is an integer as long as there are fewer than `2 ^ 63` of them, which is more
than any memory holds.

Main statement: `Session.Used.arrays`.
-/
import Mathlib.Algebra.Group.Int.Defs
import Mathlib.Algebra.Group.Nat.Defs
import ScriptVM.Proofs.Session.Prelude

namespace ScriptVM

/-! ## Fields -/

namespace Heap

variable {heap : Heap} {id : InstanceId} {name key : String} {value : Value}

theorem instanceAt_setField (h : id.index < heap.instances.size) :
    (heap.setField id name value).instanceAt id =
      { heap.instanceAt id with fields := (heap.instanceAt id).fields.insert name value } := by
  simp [setField, instanceAt, Array.getElem_modify, h]

/-- A field that is assigned has the value, and the other fields stay. -/
theorem field?_setField (h : id.index < heap.instances.size) :
    (heap.setField id name value).field? id key =
      if key = name then some value else heap.field? id key := by
  rw [field?, instanceAt_setField h, Bindings.get?_insert]
  rfl

end Heap

/-! ## The methods of arrays -/

/-- A number of elements that is not the greatest one can be counted on. -/
theorem Value.add_one {count : Int64} (h : count.toInt + 1 < 2 ^ 63) :
    Value.add (.int count) (.int 1) = .ok (.int (count + 1)) := by
  have hle := Int64.le_toInt count
  have hmin : Int64.minValue.toInt = -2 ^ 63 := by decide
  have hmax : Int64.maxValue.toInt = 2 ^ 63 - 1 := by decide
  have hfits : Decimal.fits64 (count.toInt + 1) = true := by
    simp only [Decimal.fits64, Bool.and_eq_true, decide_eq_true_eq]
    omega
  show Value.checked .add (count.toInt + 1) = _
  rw [Value.checked, Decimal.int64?, if_pos hfits, Int64.ofInt_add, Int64.ofInt_toInt]
  rfl

/-- A local variable of a call. -/
theorem slot?_local (X : List Value) {below : List Value} {byte : UInt8} {v : Value}
    (h : slot? X byte.toNat = some v) : slot? (X ++ below)
      (below.length + byte.toNat) = some v := by
  rw [slot?_append_right, h]

namespace View

variable {heap : Heap} {globals : Bindings Value} {c : ClosureId} {rest : List Frame}
  {below : List Value} {id : InstanceId} {elements : List Value} {count i : Int64} {item : Value}

theorem room {below : List Value} (hroom : below.length + 6 ≤ stackLimit) (X : List Value)
    (hX : X.length < 6) : (X ++ below).length < stackLimit := by
  rw [List.length_append]
  omega

/-- A new array is given its elements and their number. -/
theorem path_init (hbody : (heap.functionOf c).body = Listing.init.body 0)
    (hroom : below.length + 6 ≤ stackLimit) :
    View.Path rest.length none
      ⟨.int count :: .array elements :: .instanceRef id :: below,
        ⟨c, 0, below.length, .caller⟩ :: rest,
        heap, globals⟩
      ⟨.instanceRef id :: below, rest,
        (heap.setField id "storage" (.array elements)).setField id "count"
          (.int count), globals⟩ := by
  refine .next (Exec.step_getLocal hbody rfl rfl (slot?_local [_, _, _] rfl)
    (room hroom [_, _, _] (by simp))) (Nat.lt_succ_self _) ?_
  refine .next (Exec.step_getLocal hbody rfl rfl (slot?_local [_, _, _, _] rfl)
    (room hroom [_, _, _, _] (by simp))) (Nat.lt_succ_self _) ?_
  refine .next (Exec.step_setProperty hbody rfl rfl rfl (room hroom [_, _, _] (by simp)))
    (Nat.lt_succ_self _) ?_
  refine .next (Exec.step_pop hbody rfl) (Nat.lt_succ_self _) ?_
  refine .next (Exec.step_getLocal hbody rfl rfl (slot?_local [_, _, _] rfl)
    (room hroom [_, _, _] (by simp))) (Nat.lt_succ_self _) ?_
  refine .next (Exec.step_getLocal hbody rfl rfl (slot?_local [_, _, _, _] rfl)
    (room hroom [_, _, _, _] (by simp))) (Nat.lt_succ_self _) ?_
  refine .next (Exec.step_setProperty hbody rfl rfl rfl (room hroom [_, _, _] (by simp)))
    (Nat.lt_succ_self _) ?_
  refine .next (Exec.step_pop hbody rfl) (Nat.lt_succ_self _) ?_
  refine .next (Exec.step_getLocal hbody rfl rfl (slot?_local [_, _, _] rfl)
    (room hroom [_, _, _] (by simp))) (Nat.lt_succ_self _) ?_
  exact .last (Exec.step_return (X := [_, _, _]) hbody rfl (room hroom [] (by simp)))
    (Nat.le_refl _)

/-- Reading an element. -/
theorem path_element (hbody : (heap.functionOf c).body = Listing.element.body 0)
    (hroom : below.length + 6 ≤ stackLimit)
    (hstorage : heap.field? id "storage" = some (.array elements)) :
    View.Path rest.length none
      ⟨.int i :: .instanceRef id :: below, ⟨c, 0, below.length, .caller⟩ :: rest, heap, globals⟩
      ⟨Exec.elementAt elements i.toInt :: below, rest, heap, globals⟩ := by
  refine .next (Exec.step_getLocal hbody rfl rfl (slot?_local [_, _] rfl)
    (room hroom [_, _] (by simp))) (Nat.lt_succ_self _) ?_
  refine .next (Exec.step_getLocal hbody rfl rfl (slot?_local [_, _, _] rfl)
    (room hroom [_, _, _] (by simp))) (Nat.lt_succ_self _) ?_
  refine .next (Exec.step_invokeField [.int i] hbody rfl rfl rfl rfl rfl hstorage
    (Exec.gives_callArray (room hroom [_, _] (by simp)))) (Nat.lt_succ_self _) ?_
  exact .last (Exec.step_return (X := [_, _]) hbody rfl (room hroom [] (by simp))) (Nat.le_refl _)

/-- Adding an element. -/
theorem path_append (hbody : (heap.functionOf c).body = Listing.append.body 0)
    (hroom : below.length + 6 ≤ stackLimit) (hid : id.index < heap.instances.size)
    (hstorage : heap.field? id "storage" = some (.array elements))
    (hcount : heap.field? id "count" = some (.int count)) (hfits : count.toInt + 1 < 2 ^ 63)
    (hnative : globals.get? "_append" = some (.native .append)) :
    View.Path rest.length none
      ⟨item :: .instanceRef id :: below, ⟨c, 0, below.length, .caller⟩ :: rest, heap, globals⟩
      ⟨.nil :: below, rest, (heap.setField id "storage" (.array (elements ++ [item]))).setField id
        "count" (.int (count + 1)), globals⟩ := by
  refine .next (Exec.step_getLocal hbody rfl rfl (slot?_local [_, _] rfl)
    (room hroom [_, _] (by simp))) (Nat.lt_succ_self _) ?_
  refine .next (Exec.step_getGlobal hbody rfl rfl rfl hnative (room hroom [_, _, _] (by simp)))
    (Nat.lt_succ_self _) ?_
  refine .next (Exec.step_getLocal hbody rfl rfl (slot?_local [_, _, _, _] rfl)
    (room hroom [_, _, _, _] (by simp))) (Nat.lt_succ_self _) ?_
  refine .next (Exec.step_getField hbody rfl rfl rfl hstorage
    (room hroom [_, _, _, _] (by simp))) (Nat.lt_succ_self _) ?_
  refine .next (Exec.step_getLocal hbody rfl rfl (slot?_local [_, _, _, _, _] rfl)
    (room hroom [_, _, _, _, _] (by simp))) (Nat.lt_succ_self _) ?_
  refine .next (Exec.step_call [item, .array elements] hbody rfl rfl rfl
    (Exec.gives_callAppend (room hroom [_, _, _] (by simp)))) (Nat.lt_succ_self _) ?_
  refine .next (Exec.step_setProperty hbody rfl rfl rfl (room hroom [_, _] (by simp)))
    (Nat.lt_succ_self _) ?_
  refine .next (Exec.step_pop hbody rfl) (Nat.lt_succ_self _) ?_
  refine .next (Exec.step_getLocal hbody rfl rfl (slot?_local [_, _] rfl)
    (room hroom [_, _] (by simp))) (Nat.lt_succ_self _) ?_
  refine .next (Exec.step_getLocal hbody rfl rfl (slot?_local [_, _, _] rfl)
    (room hroom [_, _, _] (by simp))) (Nat.lt_succ_self _) ?_
  have hcount' : (heap.setField id "storage" (.array (elements ++ [item]))).field? id "count" =
      some (.int count) := by
    rw [Heap.field?_setField hid, if_neg (by decide), hcount]
  refine .next (Exec.step_getField hbody rfl rfl rfl hcount' (room hroom [_, _, _] (by simp)))
    (Nat.lt_succ_self _) ?_
  refine .next (Exec.step_constant hbody rfl rfl rfl (room hroom [_, _, _, _] (by simp)))
    (Nat.lt_succ_self _) ?_
  refine .next (Exec.step_binary hbody rfl (show Exec.execute .add = _ from rfl)
    (Value.add_one hfits) (room hroom [_, _, _] (by simp))) (Nat.lt_succ_self _) ?_
  refine .next (Exec.step_setProperty hbody rfl rfl rfl (room hroom [_, _] (by simp)))
    (Nat.lt_succ_self _) ?_
  refine .next (Exec.step_pop hbody rfl) (Nat.lt_succ_self _) ?_
  refine .next (Exec.step_pushNil hbody rfl (room hroom [_, _] (by simp))) (Nat.lt_succ_self _) ?_
  exact .last (Exec.step_return (X := [_, _]) hbody rfl (room hroom [] (by simp))) (Nat.le_refl _)

/-- Asking whether there are no elements, inside the instruction that asks. -/
theorem path_isEmpty (hbody : (heap.functionOf c).body = Listing.isEmpty.body 0)
    (hroom : below.length + 6 ≤ stackLimit)
    (hcount : heap.field? id "count" = some (.int count)) :
    View.Path rest.length none
      ⟨.instanceRef id :: .instanceRef id :: below,
        ⟨c, 0, (Value.instanceRef id :: below).length, .property⟩ :: rest, heap,
        globals⟩
      ⟨.bool (count == 0) :: below, rest, heap, globals⟩ := by
  refine .next (Exec.step_getLocal hbody rfl rfl (slot?_local [_] rfl)
    (room hroom [_, _] (by simp))) (Nat.lt_succ_self _) ?_
  refine .next (Exec.step_getField hbody rfl rfl rfl hcount (room hroom [_, _] (by simp)))
    (Nat.lt_succ_self _) ?_
  refine .next (Exec.step_constant hbody rfl rfl rfl (room hroom [_, _, _] (by simp)))
    (Nat.lt_succ_self _) ?_
  refine .next (Exec.step_binary hbody rfl (show Exec.execute .equal = _ from rfl) rfl
    (room hroom [_, _] (by simp))) (Nat.lt_succ_self _) ?_
  exact .last (Exec.step_returnProperty (X := [_]) hbody rfl (room hroom [] (by simp)))
    (Nat.le_refl _)

end View

/-! ## How code uses arrays -/

/-- The instructions with which code uses arrays. -/
inductive Use where
  /-- The literal of an array. -/
  | literal (count : UInt8)
  /-- A call of what stands below the arguments, as an index is. -/
  | call (arguments : UInt8)
  /-- A property of what is on top. -/
  | property (name : String)
  /-- A call of a property of what stands below the arguments. -/
  | method (name : String) (arguments : UInt8)

namespace Use

/-- The number of bytes of an instruction. -/
def length : Use → Nat
  | literal _ | call _ | property _ => 2
  | method _ _ => 3

/-- The instruction stands at an offset of some code. -/
def Stands (body : Body) (ip : Nat) : Use → Prop
  | literal count =>
    body.code[ip]? = some Opcode.arrayLiteral.toByte ∧ body.code[ip + 1]? = some count
  | call arguments =>
    body.code[ip]? = some Opcode.call.toByte ∧ body.code[ip + 1]? = some arguments
  | property name =>
    body.code[ip]? = some Opcode.getProperty.toByte ∧ ∃ byte, body.code[ip + 1]? = some byte ∧
      body.constants[byte.toNat]? = some (.string name)
  | method name arguments =>
    body.code[ip]? = some Opcode.invoke.toByte ∧ (∃ byte, body.code[ip + 1]? = some byte ∧
      body.constants[byte.toNat]? = some (.string name)) ∧ body.code[ip + 2]? = some arguments

end Use

namespace Machine

/-- The innermost call is about to do an instruction, and the operands, topmost first, are above the
other values. -/
structure AboutTo (m : Machine) (use : Use) (operands below : List Value) : Prop where
  /-- The operands are on top. -/
  values : m.values = operands ++ below
  /-- The instruction is next. -/
  stands : ∃ f rest, m.calls = f :: rest ∧ use.Stands (m.heap.functionOf f.closure).body f.ip

/-- There is room for the methods of arrays: for six values above those that stay, for a call, and
for a call inside an instruction. -/
structure Headroom (m : Machine) (below : List Value) : Prop where
  /-- There is room for values. -/
  values : below.length + 6 ≤ stackLimit
  /-- There is room for a call. -/
  calls : m.calls.length < frameLimit
  /-- There is room for a call inside an instruction. -/
  nesting : m.nesting < nestingLimit

/-- The innermost call has passed some bytes. -/
def passing (length : Nat) : List Frame → List Frame
  | [] => []
  | f :: rest => { f with ip := f.ip + length } :: rest

/-- The view once the innermost call has done an instruction: `values` are on the stack, `heap` has
the objects, and all else is as before. -/
def passed (m : Machine) (use : Use) (values : List Value) (heap : Heap) : View :=
  ⟨values, passing use.length m.calls, heap.withoutCells, m.globals⟩

/-- An instruction has been done, with all that it calls, whatever pauses there have been. -/
def Does (m m' : Machine) : Prop :=
  m.Performing m' ∧ m'.frames.size ≤ m.frames.size

/-- What happens while an instruction is done is later. -/
theorem Performing.later {m m' : Machine} (h : m.Performing m') : m.Later m' := by
  induction h with
  | start hstep => exact .step .refl hstep
  | step _ _ hstep ih => exact ih.step hstep
  | pause _ sink now ih => exact ih.pause ⟨0, fun _ => sink, now⟩

end Machine

/-- Element `i` of a list; `nil` if `i` is negative, or at least the length. -/
def element (zs : List Value) (i : Int64) : Value :=
  if h : 0 ≤ i.toInt ∧ i.toInt < zs.length then zs.get ⟨i.toInt.toNat, by omega⟩ else .nil

/-- An array is called for the element that is listed. -/
theorem elementAt_eq_element (zs : List Value) (i : Int64) :
    Exec.elementAt zs i.toInt = element zs i := by
  unfold Exec.elementAt element
  by_cases hneg : i.toInt < 0
  · rw [if_pos hneg, dif_neg (by omega)]
  rw [if_neg hneg]
  by_cases hlt : i.toInt < zs.length
  · rw [dif_pos ⟨by omega, hlt⟩, List.getD_eq_getElem?_getD, List.getElem?_eq_getElem (by omega)]
    rfl
  · rw [dif_neg (by omega), List.getD_eq_getElem?_getD, List.getElem?_eq_none (by omega)]
    rfl

/-! ## Instances that hold lists -/

/-- The objects once an array has been given some elements and their number. -/
def Heap.withElements (heap : Heap) (a : InstanceId) (zs : List Value) : Heap :=
  (heap.setField a "storage" (.array zs)).setField a "count" (.int (Int64.ofNat zs.length))

/-- An instance of a class has the elements of a list, and their number. -/
structure Heap.HoldsList (heap : Heap) (array : ClassId) (a : InstanceId)
  (zs : List Value) : Prop where
  /-- The instance is there. -/
  lt : a.index < heap.instances.size
  /-- It is an instance of the class. -/
  classId : (heap.instanceAt a).classId = array
  /-- It has the elements. -/
  storage : heap.field? a "storage" = some (.array zs)
  /-- It has their number. -/
  count : heap.field? a "count" = some (.int (Int64.ofNat zs.length))
  /-- Their number is an integer. -/
  fits : zs.length < 2 ^ 63

/-- An array that has been given elements holds them. -/
theorem Heap.holdsList_withElements {heap : Heap} {array : ClassId} {a : InstanceId}
  {zs : List Value}
    (hlt : a.index < heap.instances.size) (hclass : (heap.instanceAt a).classId = array)
    (hfits : zs.length < 2 ^ 63) : (heap.withElements a zs).HoldsList array a zs := by
  have hlt' : a.index < (heap.setField a "storage" (.array zs)).instances.size := by
    simpa [setField] using hlt
  refine ⟨by simpa [withElements, setField] using hlt, ?_, ?_, ?_, hfits⟩
  · rw [withElements, instanceAt_setField hlt', instanceAt_setField hlt]
    exact hclass
  · rw [withElements, field?_setField hlt', if_neg (by decide), field?_setField hlt, if_pos rfl]
  · rw [withElements, field?_setField hlt', if_pos rfl]

/-- The other fields of an array stay as they are. -/
theorem Heap.field?_withElements {heap : Heap} {a : InstanceId} {zs : List Value} {name : String}
    (hlt : a.index < heap.instances.size) (hname : name ≠ "storage" ∧ name ≠ "count") :
    (heap.withElements a zs).field? a name = heap.field? a name := by
  have hlt' : a.index < (heap.setField a "storage" (.array zs)).instances.size := by
    simpa [setField] using hlt
  rw [withElements, field?_setField hlt', if_neg hname.2, field?_setField hlt, if_neg hname.1]

namespace Machine

variable {m m' : Machine} {array : ClassId} {a : InstanceId} {zs below operands : List Value}
  {i : Int64} {y : Value} {use : Use}

/-- What a machine can do with an array that holds a list. -/
structure Lists (m : Machine) (a : InstanceId) (zs : List Value) : Prop where
  /-- Its count is the length. -/
  count : ∀ {below}, m.AboutTo (.property "count") [.instanceRef a] below →
    ∃ k : Int64, k.toInt = zs.length ∧
      m.Comes (m.passed (.property "count") (.int k :: below) m.heap)
  /-- It is empty if the length is zero. -/
  isEmpty : ∀ {below}, m.AboutTo (.property "isEmpty") [.instanceRef a] below →
    m.heap.field? a "isEmpty" = none → m.Headroom below →
      m.Comes (m.passed (.property "isEmpty") (.bool (zs.length == 0) :: below) m.heap)
  /-- An index reads an element. -/
  subscript : ∀ {i below}, m.AboutTo (.call 1) [.int i, .instanceRef a] below → m.Headroom below →
    m.Comes (m.passed (.call 1) (element zs i :: below) m.heap)
  /-- So does a method. -/
  get : ∀ {i below}, m.AboutTo (.method "get" 1) [.int i, .instanceRef a] below →
    m.heap.field? a "get" = none → m.Headroom below →
      m.Comes (m.passed (.method "get" 1) (element zs i :: below) m.heap)
  /-- An element is added, and nothing else is changed. -/
  append : ∀ {y below}, m.AboutTo (.method "append" 1) [y, .instanceRef a] below →
    m.heap.field? a "append" = none → m.globals.get? "_append" = some (.native .append) →
      zs.length + 1 < 2 ^ 63 → m.Headroom below →
        m.Comes (m.passed (.method "append" 1) (.nil :: below) (m.heap.withElements a (zs ++ [y])))
  /-- The raw storage is read. -/
  storage : ∀ {below}, m.AboutTo (.property "storage") [.instanceRef a] below →
    m.Comes (m.passed (.property "storage") (.array zs :: below) m.heap)
  /-- Whatever happens later, the raw storage that was read has its elements. -/
  keeps : ∀ {m' i below}, m.Later m' → m'.AboutTo (.call 1) [.int i, .array zs] below →
    m'.Comes (m'.passed (.call 1) (element zs i :: below) m'.heap)

/-- The view of a machine that is about to do an instruction. -/
theorem AboutTo.exists_view (h : m.AboutTo use operands below) : ∃ c ip s r rest,
    m.view = ⟨operands ++ below, ⟨c, ip, s, r⟩ :: rest, m.heap.withoutCells, m.globals⟩ ∧
      use.Stands (m.heap.withoutCells.functionOf c).body ip ∧ m.calls = ⟨c, ip, s, r⟩ :: rest ∧
      ∀ values heap, m.passed use values heap =
        ⟨values, ⟨c, ip + use.length, s, r⟩ :: rest, heap.withoutCells, m.globals⟩ := by
  obtain ⟨hvalues, ⟨c, ip, s, r⟩, rest, hcalls, hstands⟩ := h
  refine ⟨c, ip, s, r, rest, (View.mk.injEq ..).mpr ⟨hvalues, hcalls, rfl, rfl⟩, hstands, hcalls,
    fun values heap => ?_⟩
  rw [passed, hcalls]
  rfl

/-- An operand on the stack leaves that much room above the values below. -/
theorem AboutTo.room (h : m.AboutTo use (y :: operands) below) : below.length < stackLimit := by
  have hsize := m.size_stack
  rw [h.values, List.length_append, List.length_cons] at hsize
  have := m.stack.size_le
  simp only [Stack.size] at hsize
  omega

/-- Where there is room for the methods of arrays, there is room for a call. -/
theorem Headroom.calls_lt {c : ClosureId} {ip s : Nat} {r : Resume} {rest : List Frame}
    (h : m.Headroom below) (hcalls : m.calls = ⟨c, ip, s, r⟩ :: rest) :
    rest.length + 1 < frameLimit := by
  have := h.calls
  rwa [hcalls] at this

section

variable {c : ClosureId} {ip s : Nat} {r : Resume} {rest : List Frame} {values : List Value}
  {heap : Heap} {globals : Bindings Value}

/-- What the view shows to stand at an offset is about to be done. -/
theorem AboutTo.of_view (hm : m.view = ⟨operands ++ below, ⟨c, ip, s, r⟩ :: rest, heap, globals⟩)
    (hstands : use.Stands (heap.functionOf c).body ip) : m.AboutTo use operands below := by
  refine ⟨congrArg View.values hm, ⟨c, ip, s, r⟩, rest, congrArg View.calls hm, ?_⟩
  obtain rfl : m.heap.withoutCells = heap := congrArg View.heap hm
  exact hstands

/-- A main program with few enough values has room for the methods of arrays. -/
theorem Headroom.of_view (hm : m.view = ⟨values, [⟨c, ip, s, .finish⟩], heap, globals⟩)
    (hvalues : below.length + 6 ≤ stackLimit) : m.Headroom below := by
  have hcalls : m.calls = [⟨c, ip, s, .finish⟩] := congrArg View.calls hm
  refine ⟨hvalues, ?_, ?_⟩
  · rw [hcalls]
    exact (by decide : 1 < frameLimit)
  · rw [nesting_eq_countP, hcalls]
    exact (by decide : 0 < nestingLimit)

/-- The view behind an instruction, as it follows from the view in front of it. -/
theorem passed_of_view (hm : m.view = ⟨values, ⟨c, ip, s, r⟩ :: rest, heap, globals⟩)
    (values' : List Value) (heap' : Heap) : m.passed use values' heap' =
      ⟨values', ⟨c, ip + use.length, s, r⟩ :: rest, heap'.withoutCells, globals⟩ := by
  rw [passed, show m.calls = _ from congrArg View.calls hm,
    show m.globals = _ from congrArg View.globals hm]
  rfl

/-- An instruction that succeeds can be done. -/
theorem Comes.exists_does {heap : Heap} (h : m.Comes (m.passed use values heap)) :
    ∃ m', m.Does m' ∧ m'.view = m.passed use values heap := by
  obtain ⟨m', hperforms, hview⟩ := h.returns
  refine ⟨m', ⟨hperforms, ?_⟩, hview⟩
  rw [← length_calls, ← length_calls, show m'.calls = passing use.length m.calls from
    congrArg View.calls hview]
  cases m.calls <;> exact Nat.le_refl _

end

/-- The literal of an array makes an array that holds its elements. -/
theorem AboutTo.comes_literal {n : UInt8} (h : m.AboutTo (.literal n) zs.reverse below)
    (hn : n.toNat = zs.length) (hglobal : m.globals.get? "Array" = some (.classRef array))
    (harrays : m.heap.HasArrays array) (hroom : m.Headroom below) :
    m.Comes (m.passed (.literal n) (.instanceRef ⟨m.heap.instances.size⟩ :: below)
      ((m.heap.newInstance array).2.withElements ⟨m.heap.instances.size⟩ zs)) := by
  obtain ⟨c, ip, s, r, rest, hview, ⟨hop, hbyte⟩, hcalls, hpassed⟩ := h.exists_view
  obtain ⟨init, hmember, -, -, hbody⟩ := harrays.init
  have hsix := hroom.values
  rw [hpassed]
  refine View.Path.comes (.next ?_ (Nat.lt_succ_self _) (View.path_init
    (show ((m.heap.newInstance array).2.withoutCells.functionOf init).body = _ from hbody)
      hsix)) hview rfl
  exact Exec.step_arrayLiteral rfl hop hbyte hn hglobal (by omega)
    (Exec.gives_callClass [_, _] hmember hbody rfl rfl (hroom.calls_lt hcalls))

/-- A field of an instance is read. -/
theorem AboutTo.comes_property {name : String} {value : Value}
    (h : m.AboutTo (.property name) [.instanceRef a] below)
    (hfield : m.heap.field? a name = some value) :
    m.Comes (m.passed (.property name) (value :: below) m.heap) := by
  obtain ⟨c, ip, s, r, rest, hview, ⟨hop, byte, hbyte, hname⟩, -, hpassed⟩ := h.exists_view
  rw [hpassed]
  exact View.Path.comes (.last (Exec.step_getField rfl hop hbyte hname hfield h.room)
    (Nat.le_refl _))
    hview rfl

/-- The property of being empty says whether there are no elements. -/
theorem AboutTo.comes_isEmpty (h : m.AboutTo (.property "isEmpty") [.instanceRef a] below)
    (hlist : m.heap.HoldsList array a zs) (harrays : m.heap.HasArrays array)
    (hunhidden : m.heap.field? a "isEmpty" = none) (hroom : m.Headroom below) :
    m.Comes (m.passed (.property "isEmpty") (.bool (zs.length == 0) :: below) m.heap) := by
  obtain ⟨c, ip, s, r, rest, hview, ⟨hop, byte, hbyte, hname⟩, hcalls, hpassed⟩ := h.exists_view
  obtain ⟨property, hmember, -, -, hbody⟩ := harrays.isEmpty
  have hsix := hroom.values
  have hnesting := hroom.nesting
  rw [nesting_eq_countP, hcalls] at hnesting
  have hproperty : (m.heap.classOf a).properties.get? "isEmpty" = some property := by
    rw [Heap.classOf, hlist.classId]
    exact hmember
  have hlength : (Int64.ofNat zs.length).toInt = zs.length := Int64.toInt_ofNat_of_lt hlist.fits
  have hzero : (Int64.ofNat zs.length == 0) = (zs.length == 0) := by
    rw [Bool.eq_iff_iff, beq_iff_eq, beq_iff_eq, ← Int64.toInt_inj, hlength, Int64.toInt_zero]
    omega
  rw [hpassed, ← hzero]
  refine View.Path.comes (.next ?_ (Nat.lt_succ_self _) (View.path_isEmpty
    (show (m.heap.withoutCells.functionOf property).body = _ from hbody) hsix hlist.count))
      hview rfl
  exact Exec.step_getComputed rfl hop hbyte hname hunhidden hproperty hbody rfl
    (show below.length + 1 < stackLimit by omega) (hroom.calls_lt hcalls) hnesting

/-- The call of an array with an index gives the element. -/
theorem AboutTo.comes_subscript (h : m.AboutTo (.call 1) [.int i, .instanceRef a] below)
    (hlist : m.heap.HoldsList array a zs) (harrays : m.heap.HasArrays array)
    (hroom : m.Headroom below) :
    m.Comes (m.passed (.call 1) (element zs i :: below) m.heap) := by
  obtain ⟨c, ip, s, r, rest, hview, ⟨hop, hbyte⟩, hcalls, hpassed⟩ := h.exists_view
  obtain ⟨method, hmember, -, -, hbody⟩ := harrays.subscript
  have hmethod : (m.heap.classOf a).methods.get? "subscript" = some method := by
    rw [Heap.classOf, hlist.classId]
    exact hmember
  rw [hpassed, ← elementAt_eq_element]
  refine View.Path.comes (.next ?_ (Nat.lt_succ_self _) (View.path_element
    (show (m.heap.withoutCells.functionOf method).body = _ from hbody) hroom.values
      hlist.storage)) hview rfl
  exact Exec.step_call [.int i] rfl hop hbyte rfl
    (Exec.gives_callInstance [.int i] hmethod hbody rfl rfl (hroom.calls_lt hcalls))

/-- A method with one parameter is called. -/
theorem AboutTo.step_method {name : String} {body : Body}
  (h : m.AboutTo (.method name 1) [y, .instanceRef a] below)
    (hclass : (m.heap.instanceAt a).classId = array)
      (hoffers : m.heap.Offers array .method name body)
    (harity : body.arity = 1) (hproperty : m.heap.member? .property array name = none)
    (hunhidden : m.heap.field? a name = none) (hroom : m.Headroom below) {values : List Value}
      {heap : Heap}
    (hpath : ∀ {c : ClosureId} {rest : List Frame}, (m.heap.withoutCells.functionOf c).body = body →
      View.Path rest.length none ⟨y :: .instanceRef a :: below,
        ⟨c, 0, below.length, .caller⟩ :: rest,
        m.heap.withoutCells, m.globals⟩ ⟨values, rest, heap.withoutCells, m.globals⟩) :
    m.Comes (m.passed (.method name 1) values heap) := by
  obtain ⟨c, ip, s, r, rest, hview, ⟨hop, ⟨byte, hbyte, hname⟩, hcount⟩, hcalls, hpassed⟩ :=
    h.exists_view
  obtain ⟨method, hmember, -, -, hbody⟩ := hoffers
  have hmethod : (m.heap.classOf a).methods.get? name = some method := by
    rw [Heap.classOf, hclass]
    exact hmember
  have hnone : (m.heap.classOf a).properties.get? name = none := by
    rw [Heap.classOf, hclass]
    exact hproperty
  rw [hpassed]
  refine View.Path.comes (.next ?_ (Nat.lt_succ_self _) (hpath (c := method) hbody)) hview rfl
  exact Exec.step_invokeMethod [y] rfl hop hbyte hname hcount rfl hunhidden hnone hmethod hbody
    harity (hroom.calls_lt hcalls)

/-- The call of the elements themselves gives the element. -/
theorem AboutTo.comes_array (h : m.AboutTo (.call 1) [.int i, .array zs] below) :
    m.Comes (m.passed (.call 1) (element zs i :: below) m.heap) := by
  obtain ⟨c, ip, s, r, rest, hview, ⟨hop, hbyte⟩, -, hpassed⟩ := h.exists_view
  rw [hpassed, ← elementAt_eq_element]
  refine View.Path.comes (.last ?_ (Nat.le_refl _)) hview rfl
  exact Exec.step_call [.int i] rfl hop hbyte rfl (Exec.gives_callArray h.room)

/-- **An array that holds a list behaves like it.** -/
theorem lists (hlist : m.heap.HoldsList array a zs) (harrays : m.heap.HasArrays array) :
    m.Lists a zs where
  count h := by
    refine ⟨Int64.ofNat zs.length, ?_, h.comes_property hlist.count⟩
    exact Int64.toInt_ofNat_of_lt hlist.fits
  isEmpty h hunhidden hroom := h.comes_isEmpty hlist harrays hunhidden hroom
  subscript h hroom := h.comes_subscript hlist harrays hroom
  get h hunhidden hroom := by
    rw [← elementAt_eq_element]
    exact h.step_method hlist.classId harrays.get rfl
      (harrays.unhidden "get" (by simp)) hunhidden hroom
      fun hbody => View.path_element hbody hroom.values hlist.storage
  append {y below} h hunhidden hnative hfits hroom := by
    have hcount : (Int64.ofNat zs.length).toInt = zs.length := Int64.toInt_ofNat_of_lt hlist.fits
    have hlonger : Int64.ofNat zs.length + 1 = Int64.ofNat (zs ++ [y]).length := by
      rw [List.length_append, Int64.ofNat_add]
      rfl
    refine h.step_method hlist.classId harrays.append rfl
      (harrays.unhidden "append" (by simp)) hunhidden
      hroom fun hbody => ?_
    rw [Heap.withElements, ← hlonger]
    exact View.path_append hbody hroom.values hlist.lt hlist.storage hlist.count
      (by rw [hcount]; omega) hnative
  storage h := h.comes_property hlist.storage
  keeps _ h := h.comes_array

/-! ## Histories -/

/-- A history of an array: after a machine, a literal of `xs` makes it, and calls of `append` add
the elements of `ys` in order.  Whatever happens in between, in the same run or in another one, it
leaves the two fields of the array as they are. -/
inductive Grown (start : Machine) (array : ClassId) (a : InstanceId) (xs : List Value) :
    List Value → Machine → Prop
  | literal {m m' : Machine} {n : UInt8} {below : List Value} (hlater : start.Later m)
      (hglobal : m.globals.get? "Array" = some (.classRef array))
      (h : m.AboutTo (.literal n) xs.reverse below) (hn : n.toNat = xs.length)
      (hroom : m.Headroom below) (hdoes : m.Does m') (hmade : m'.values = .instanceRef a :: below) :
      Grown start array a xs [] m'
  | append {ys below : List Value} {y : Value} {m m' : Machine}
    (hgrown : Grown start array a xs ys m)
      (h : m.AboutTo (.method "append" 1) [y, .instanceRef a] below)
      (hunhidden : m.heap.field? a "append" = none)
      (hnative : m.globals.get? "_append" = some (.native .append))
      (hfits : xs.length + ys.length + 1 < 2 ^ 63) (hroom : m.Headroom below) (hdoes : m.Does m') :
      Grown start array a xs (ys ++ [y]) m'
  | other {ys : List Value} {m m' : Machine} (hgrown : Grown start array a xs ys m)
      (hlater : m.Later m') (hstorage : m'.heap.field? a "storage" = m.heap.field? a "storage")
      (hcount : m'.heap.field? a "count" = m.heap.field? a "count") : Grown start array a xs ys m'

/-- The fields are those of the view. -/
theorem field?_of_view {heap : Heap} (h : m.view.heap = heap.withoutCells) (name : String) :
    m.heap.field? a name = heap.field? a name := by
  show m.view.heap.field? a name = heap.withoutCells.field? a name
  rw [h]

/-- What holds a list in a view holds it. -/
theorem holdsList_of_view {heap : Heap} (h : m.view.heap = heap.withoutCells)
    (hlist : heap.HoldsList array a zs) : m.heap.HoldsList array a zs := by
  have hheap : m.view.heap.HoldsList array a zs := by
    rw [h]
    exact ⟨hlist.lt, hlist.classId, hlist.storage, hlist.count, hlist.fits⟩
  exact ⟨hheap.lt, hheap.classId, hheap.storage, hheap.count, hheap.fits⟩

/-- **An array holds the elements of its literal and those that have been added**, whatever else has
happened since. -/
theorem Grown.holdsList {start : Machine} {count : Nat} {xs ys : List Value}
  (hstart : start.Beyond count)
    (hid : array.index < count) (harrays : start.heap.HasArrays array)
    (h : start.Grown array a xs ys m) :
    start.Later m ∧ m.heap.HoldsList array a (xs ++ ys) := by
  have hhas : ∀ {m : Machine}, start.Later m → m.heap.HasArrays array := fun hlater =>
    (hlater.keeps hstart).2.hasArrays hid harrays
  induction h with
  | @literal m m' n below hlater hglobal h hn hroom hdoes hmade =>
    have hview := (h.comes_literal hn hglobal (hhas hlater) hroom).result hdoes.1 hdoes.2
    have hvalues : Value.instanceRef a :: below = .instanceRef ⟨m.heap.instances.size⟩ :: below :=
      hmade.symm.trans (congrArg View.values hview)
    obtain rfl := Value.instanceRef.inj (List.cons.inj hvalues).1
    have hlt := n.toNat_lt
    refine ⟨hlater.trans hdoes.1.later, holdsList_of_view (congrArg View.heap hview) ?_⟩
    rw [List.append_nil]
    refine Heap.holdsList_withElements ?_ ?_ (by omega)
    · simp [Heap.newInstance]
    · simp [Heap.newInstance, Heap.instanceAt]
  | @append ys below y m m' _ h hunhidden hnative hfits hroom hdoes ih =>
    obtain ⟨hlater, hlist⟩ := ih
    have hview := ((lists hlist (hhas hlater)).append h hunhidden hnative
      (by rw [List.length_append]; omega) hroom).result hdoes.1 hdoes.2
    refine ⟨hlater.trans hdoes.1.later, holdsList_of_view (congrArg View.heap hview) ?_⟩
    rw [← List.append_assoc]
    refine Heap.holdsList_withElements hlist.lt hlist.classId ?_
    simp only [List.length_append, List.length_singleton]
    omega
  | @other ys m m' _ hlater' hstorage hcount ih =>
    obtain ⟨hlater, hlist⟩ := ih
    obtain ⟨hclass, hlt⟩ := (hlater'.keeps (hlater.keeps hstart).1).2.classId hlist.lt
    exact ⟨hlater.trans hlater', hlt, hclass.trans hlist.classId, hstorage.trans hlist.storage,
      hcount.trans hlist.count, hlist.fits⟩

end Machine

/-! ## Statements that add a constant -/

namespace Machine

variable {start m : Machine} {array : ClassId} {a : InstanceId} {xs ys : List Value} {y : Value}
  {v v' : View} {c : ClosureId} {ip : Nat} {body : Body} {heap : Heap} {globals : Bindings Value}

/-- An instruction that leaves the objects alone can stand in a history. -/
theorem Grown.passes (h : start.Grown array a xs ys m) (hm : m.view = v)
    (hstep : Exec.step.Gives v none v') (hheap : v'.heap = v.heap) :
    ∃ m', m'.view = v' ∧ start.Grown array a xs ys m' := by
  obtain ⟨m', hstep', hm'⟩ := hstep m hm
  have hsame : m'.view.heap = m.heap.withoutCells := by
    rw [hm', hheap, ← hm]
    rfl
  exact ⟨m', hm', .other h (.step .refl hstep') (field?_of_view hsame _) (field?_of_view hsame _)⟩

/-- The code of a statement that adds a constant to the array in the first local variable. -/
structure Appends (body : Body) (ip : Nat) (y : Value) : Prop where
  /-- The array is read. -/
  array : body.code[ip]? = some Opcode.getLocal.toByte ∧ body.code[ip + 1]? = some 1
  /-- The constant is read. -/
  constant : body.code[ip + 2]? = some Opcode.constant.toByte
  /-- It is the one at hand. -/
  value : ∃ byte : UInt8, body.code[ip + 3]? = some byte ∧ body.constants[byte.toNat]? = some y
  /-- The method is called. -/
  call : (Use.method "append" 1).Stands body (ip + 4)
  /-- What it returns is dropped. -/
  pop : body.code[ip + 7]? = some Opcode.pop.toByte

/-- A main program with an array in its first local variable, which no field keeps from growing. -/
structure Holding (body : Body) (globals : Bindings Value) (c : ClosureId) (a : InstanceId)
    (ip : Nat) (m : Machine) : Prop where
  /-- The view. -/
  view : m.view = ⟨[.instanceRef a, .closureRef c], [⟨c, ip, 0, .finish⟩], m.heap.withoutCells,
    globals⟩
  /-- The code. -/
  body : (m.heap.withoutCells.functionOf c).body = body
  /-- The method of the class is called. -/
  unhidden : m.heap.field? a "append" = none

/-- A view of a main program is enough to know that it holds an array. -/
theorem Holding.of_view
    (hm : m.view = ⟨[.instanceRef a, .closureRef c], [⟨c, ip, 0, .finish⟩], heap.withoutCells,
      globals⟩) (hbody : (heap.withoutCells.functionOf c).body = body)
    (hunhidden : heap.field? a "append" = none) : Holding body globals c a ip m := by
  have hheap : m.heap.withoutCells = heap.withoutCells := congrArg View.heap hm
  exact ⟨by rw [hheap, hm], by rw [hheap, hbody],
    (field?_of_view (congrArg View.heap hm) _).trans hunhidden⟩

/-- **A statement that adds a constant makes the list longer.** -/
theorem Grown.appends (hgrown : start.Grown array a xs ys m)
    (hlists : ∀ {m}, start.Grown array a xs ys m → a.index < m.heap.instances.size ∧
      (m.heap.instanceAt a).classId = array ∧ m.Lists a (xs ++ ys))
    (hm : Holding body globals c a ip m) (hcode : Appends body ip y)
    (hnative : globals.get? "_append" = some (.native .append))
    (hfits : xs.length + ys.length + 1 < 2 ^ 63) :
    ∃ m', start.Grown array a xs (ys ++ [y]) m' ∧ Holding body globals c a (ip + 8) m' := by
  obtain ⟨byte, hbyte, hconstant⟩ := hcode.value
  have hroom : ∀ {values : List Value}, values.length ≤ 3 → values.length < stackLimit :=
    fun h => Nat.lt_of_le_of_lt h (by decide)
  -- The operands.
  obtain ⟨m₁, hm₁, hgrown₁⟩ := hgrown.passes hm.view (Exec.step_getLocal hm.body hcode.array.1
    hcode.array.2 rfl (hroom (by simp))) rfl
  obtain ⟨m₂, hm₂, hgrown₂⟩ := hgrown₁.passes hm₁ (Exec.step_constant hm.body hcode.constant hbyte
    hconstant (hroom (by simp))) rfl
  have hheap : m₂.heap.withoutCells = m.heap.withoutCells := congrArg View.heap hm₂
  have hunhidden : m₂.heap.field? a "append" = none :=
    (field?_of_view (congrArg View.heap hm₂) _).trans hm.unhidden
  -- The call.
  have hto : m₂.AboutTo (.method "append" 1) [y, .instanceRef a] [.instanceRef a, .closureRef c] :=
    .of_view hm₂ (by rw [hm.body]; exact hcode.call)
  have hspace : m₂.Headroom [.instanceRef a, .closureRef c] :=
    .of_view hm₂ (by decide : 2 + 6 ≤ stackLimit)
  have hnative₂ : m₂.globals.get? "_append" = some (.native .append) := by
    rwa [show m₂.globals = globals from congrArg View.globals hm₂]
  obtain ⟨hlt, -, hlist⟩ := hlists hgrown₂
  obtain ⟨m₃, hdoes, hm₃⟩ := (hlist.append hto hunhidden hnative₂
    (by rwa [List.length_append]) hspace).exists_does
  rw [passed_of_view hm₂] at hm₃
  have hgrown₃ := hgrown₂.append hto hunhidden hnative₂ hfits hspace hdoes
  -- What it returns.
  have hbody : ((m₂.heap.withElements a (xs ++ ys ++ [y])).withoutCells.functionOf c).body = body :=
    (congrArg (fun heap => (heap.functionOf c).body) hheap).trans hm.body
  obtain ⟨m₄, hm₄, hgrown₄⟩ := hgrown₃.passes hm₃ (Exec.step_pop hbody hcode.pop) rfl
  refine ⟨m₄, hgrown₄, .of_view hm₄ hbody ?_⟩
  rw [Heap.field?_withElements hlt (by decide), hunhidden]

end Machine

/-! ## Sessions -/

/-- The code of a literal and two calls of `append`. -/
def Listing.appending : Listing where
  arity := 0
  instructions := [(.constant, [0]), (.arrayLiteral, [1]), (.getLocal, [1]), (.constant, [2]),
    (.invoke, [1, 1]), (.pop, []), (.getLocal, [1]), (.constant, [3]),
      (.invoke, [1, 1]), (.pop, []),
    (.pop, []), (.pushNil, []), (.ret, [])]
  constants := [.int 1, .text "append", .int 2, .text "x"]

theorem Program.isListed_appending : isListed [.appending]
    (compile "\x7b var a = [1]; a.append(2); a.append(\"x\"); \x7d") = true := by
  decide +kernel

namespace Session

variable {natives : List Native} {s s' : Session} {pauses : List Pause}

/-- **Arrays are lists that grow**: once the prelude is loaded, there is a class such that literals
make instances of it as long as the global is the class, and whatever the history of such an
instance is, it stays one and behaves like the list of the elements of its literal and those that
have been added. -/
theorem Used.arrays (h : Used natives s) (hunloaded : s.preludeLoaded = false)
    (hload : s.loadPrelude (.paced pauses) = some (.ok (), s')) :
    ∃ array, s'.machine.globals.get? "Array" = some (.classRef array) ∧
      (∀ {m : Machine} {n : UInt8} {xs below : List Value}, s'.machine.Later m →
        m.globals.get? "Array" = some (.classRef array) → m.AboutTo (.literal n) xs.reverse below →
        n.toNat = xs.length → m.Headroom below →
          m.Comes (m.passed (.literal n) (.instanceRef ⟨m.heap.instances.size⟩ :: below)
            ((m.heap.newInstance array).2.withElements ⟨m.heap.instances.size⟩ xs))) ∧
      ∀ {m : Machine} {a : InstanceId} {xs ys : List Value}, s'.machine.Grown array a xs ys m →
        a.index < m.heap.instances.size ∧ (m.heap.instanceAt a).classId = array ∧
          m.Lists a (xs ++ ys) := by
  obtain ⟨-, harrays, hsize, hglobals⟩ := h.loads hunloaded hload
  have hused : Used natives s' := .load h _ hload
  have hbeyond : s'.machine.Beyond s'.machine.heap.classes.size := .resting hused.rests
    (Nat.le_refl _)
  have hid : s.machine.heap.classes.size < s'.machine.heap.classes.size := by omega
  refine ⟨⟨s.machine.heap.classes.size⟩, ?_, fun hlater hglobal hto hn hroom => ?_,
    fun hgrown => ?_⟩
  · rw [hglobals, Bindings.get?_insert, if_pos rfl]
  · exact hto.comes_literal hn hglobal ((hlater.keeps hbeyond).2.hasArrays hid harrays) hroom
  · obtain ⟨hlater, hlist⟩ := hgrown.holdsList hbeyond hid harrays
    exact ⟨hlist.lt, hlist.classId,
      Machine.lists hlist ((hlater.keeps hbeyond).2.hasArrays hid harrays)⟩

/-- A run makes an array of `1`, and adds `2` and `"x"`. -/
theorem Used.arrays_appending : ∃ (pauses : List Pause) (s : Session) (array : ClassId)
    (a : InstanceId) (m : Machine),
    (Session.new Native.all .reliable 0).loadPrelude (.paced pauses) = some (.ok (), s) ∧
      s.machine.Grown array a [.int 1] [.int 2, .string "x"] m ∧
      m.Lists a [.int 1, .int 2, .string "x"] := by
  have hused : Used Native.all (Session.new Native.all .reliable 0) := .new _ _
  obtain ⟨pauses, s, hload⟩ := hused.exists_loads rfl
  obtain ⟨array, hglobal, hliteral, hgrown⟩ := hused.arrays rfl hload
  obtain ⟨-, -, -, hglobals⟩ := hused.loads rfl hload
  have hnative : s.machine.globals.get? "_append" = some (.native .append) := by
    rw [hglobals, Bindings.get?_insert, if_neg (by decide)]
    rfl
  obtain ⟨program, m₀, c, heap, hcompile, hlaunch, hm₀, -, ⟨-, -, hbody⟩, -⟩ :=
    (Used.load hused _ hload).launch_listed Program.isListed_appending rfl rfl
  obtain ⟨blueprints, hrests⟩ := (Used.load hused _ hload).rests
  have hlater₀ : s.machine.Later m₀ := .launch .refl hrests.calls hcompile hlaunch
  -- The element of the literal.
  have hspace : [Value.closureRef c].length < stackLimit := (by decide : 1 < stackLimit)
  obtain ⟨m₁, hstep₁, hm₁⟩ := Exec.step_constant hbody rfl rfl rfl hspace m₀ hm₀
  have hlater₁ : s.machine.Later m₁ := hlater₀.step hstep₁
  have hheap₁ : m₁.heap.withoutCells = heap := congrArg View.heap hm₁
  have hglobals₁ : m₁.globals = s.machine.globals := congrArg View.globals hm₁
  -- The literal.
  have hto₁ : m₁.AboutTo (.literal 1) [.int 1] [.closureRef c] := .of_view hm₁
    (by rw [hbody]; exact ⟨rfl, rfl⟩)
  have hroom₁ : m₁.Headroom [.closureRef c] := .of_view hm₁ (by decide : 1 + 6 ≤ stackLimit)
  have hglobal₁ : m₁.globals.get? "Array" = some (.classRef array) := by rw [hglobals₁, hglobal]
  obtain ⟨m₂, hdoes₂, hm₂⟩ :=
    (@hliteral m₁ 1 [.int 1] [.closureRef c] hlater₁ hglobal₁ hto₁ rfl hroom₁).exists_does
  rw [Machine.passed_of_view hm₁] at hm₂
  have hgrown₂ : s.machine.Grown array ⟨m₁.heap.instances.size⟩ [.int 1] [] m₂ :=
    .literal hlater₁ hglobal₁ hto₁ rfl hroom₁ hdoes₂ (congrArg View.values hm₂)
  subst hheap₁
  have hholding₂ : Machine.Holding (Listing.appending.body s.machine.heap.functions.size)
      s.machine.globals c ⟨m₁.heap.instances.size⟩ 4 m₂ := by
    refine .of_view hm₂ hbody ?_
    rw [Heap.field?_withElements (by simp [Heap.newInstance]) (by decide)]
    simp [Heap.field?, Heap.newInstance, Heap.instanceAt]
  -- The two statements.
  obtain ⟨m₃, hgrown₃, hholding₃⟩ := hgrown₂.appends (y := .int 2) hgrown hholding₂
    ⟨⟨rfl, rfl⟩, rfl, ⟨2, rfl, rfl⟩, ⟨rfl, ⟨1, rfl, rfl⟩, rfl⟩, rfl⟩ hnative (by decide)
  obtain ⟨m₄, hgrown₄, -⟩ := hgrown₃.appends (y := .string "x") hgrown hholding₃
    ⟨⟨rfl, rfl⟩, rfl, ⟨3, rfl, rfl⟩, ⟨rfl, ⟨1, rfl, rfl⟩, rfl⟩, rfl⟩ hnative (by decide)
  exact ⟨pauses, s, array, _, m₄, hload, hgrown₄, (hgrown hgrown₄).2.2⟩

end Session

end ScriptVM
