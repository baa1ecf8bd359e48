/-
# Loading the prelude

The functions that the prelude is compiled to are known (`Listing.prelude`), behind whatever
functions there are (`Program.compileAfter_of_isListed`), and its code is run forwards to its end
(`View.path_prelude`).  So a session that loads the prelude gets a class that offers what the
prelude says (`Heap.HasArrays`), whatever it has run before.

Main statements: `Session.Used.loads` and `Session.Used.exists_loads`.
-/
import ScriptVM.Proofs.Machine.Execution
import ScriptVM.Proofs.Program.Layout
import ScriptVM.Proofs.Session.Backtrace
import ScriptVM.Proofs.Session.Finished

namespace ScriptVM

/-! ## The tokens of the prelude -/

namespace Text.Cluster

/-- A character that is a cluster of its own among others of the kind. -/
def standsAlone (c : Char) : Bool :=
  classOf c = .other || classOf c = .lineFeed

/-- Characters that stand alone end the cluster before them. -/
theorem foldl_feed_of_standsAlone {cs : List Char} (h : ∀ c ∈ cs, standsAlone c = true) (cut : Cut)
    (hlast : cut.context.last = .other ∨ cut.context.last = .lineFeed) (c : Char)
    (hpending : cut.pending = [c]) :
    (cs.foldl Cut.feed cut).done.toList ++ [(cs.foldl Cut.feed cut).openText] =
      cut.done.toList ++ (c :: cs).map fun c => String.ofList [c] := by
  induction cs generalizing cut c with
  | nil => simp [Cut.openText, hpending]
  | cons d rest ih =>
    simp only [List.forall_mem_cons, standsAlone, Bool.or_eq_true, decide_eq_true_eq] at h
    have hjoins : cut.context.joins (classOf d) = false := by
      rcases hlast with hlast | hlast <;> rcases h.1 with hd | hd <;>
        simp [Context.joins, hlast, hd]
    have hfeed : cut.feed d = ⟨cut.done.push cut.openText, [d], .start (classOf d)⟩ := by
      rw [Cut.feed, hjoins]
      rfl
    rw [List.foldl_cons, hfeed, ih (by simpa [standsAlone] using h.2) _ h.1 d rfl]
    simp [Cut.openText, hpending]

/-- A text of characters that stand alone has each of them as a cluster. -/
theorem split_of_standsAlone {text : String} (h : ∀ c ∈ text.toList, standsAlone c = true) :
    split text = text.toList.map fun c => String.ofList [c] := by
  rw [split]
  cases hlist : text.toList with
  | nil => rfl
  | cons c rest =>
    rw [hlist] at h
    simp only [List.forall_mem_cons] at h
    rw [splitChars, Array.toList_push]
    have hc := h.1
    rw [standsAlone, Bool.or_eq_true, decide_eq_true_eq, decide_eq_true_eq] at hc
    exact foldl_feed_of_standsAlone h.2 _ hc c rfl

end Text.Cluster

/-- The characters of the prelude. -/
def preludeChars : List Char :=
  ['\n'].intercalate (preludeLines.map String.toList)

theorem toList_prelude : prelude.toList = preludeChars :=
  String.toList_intercalate

/-- The prelude is read character by character. -/
theorem scan_prelude : scan prelude = (Cursor.items #[] (preludeChars.length + 1)
    ⟨0, 1, preludeChars.map fun c => String.ofList [c]⟩).toList := by
  have halone : ∀ c ∈ prelude.toList, Text.Cluster.standsAlone c = true := by
    rw [toList_prelude]
    exact List.all_eq_true.1 (by decide +kernel)
  rw [scan, Text.Cutting.scan, Text.Cluster.split_cutting,
    Text.Cluster.split_of_standsAlone halone, toList_prelude, List.length_map]

/-! ## The compiled prelude -/

/-- A constant of the prelude. -/
inductive Written where
  /-- A name. -/
  | text (s : String)
  /-- An integer. -/
  | int (i : Int64)
  /-- A function of the prelude. -/
  | function (index : Nat)
deriving DecidableEq

namespace Written

/-- The constant as a value, where other functions come first. -/
def value (count : Nat) : Written → Value
  | .text s => .string s
  | .int i => .int i
  | .function index => .functionRef ⟨index + count⟩

/-- The value as a constant of the prelude. -/
def of? : Value → Option Written
  | .string s => some (.text s)
  | .int i => some (.int i)
  | .functionRef id => some (.function id.index)
  | _ => none

theorem displaced_of_of? {v : Value} {w : Written} (h : of? v = some w) (count : Nat) :
    v.displaced count = w.value count := by
  cases v <;> cases h <;> rfl

end Written

/-- A function of the prelude. -/
structure Listing where
  /-- The number of parameters. -/
  arity : UInt8
  /-- The instructions, each with its operands. -/
  instructions : List (Opcode × List UInt8)
  /-- The constants. -/
  constants : List Written

namespace Listing

/-- The bytes of the instructions. -/
def code (l : Listing) : List UInt8 :=
  l.instructions.flatMap fun i => i.1.toByte :: i.2

/-- What the function runs, where other functions come first. -/
def body (l : Listing) (count : Nat) : Body :=
  ⟨l.arity, l.code, l.constants.map (Written.value count)⟩

/-- Whether a compiled function is the listed one. -/
def describes (l : Listing) (f : Function) : Bool :=
  f.arity = l.arity ∧ f.captureCount = 0 ∧ f.chunk.code.toList = l.code ∧
    f.chunk.constants.toList.map Written.of? = l.constants.map some

/-- Fills the fields of a new array. -/
def init : Listing where
  arity := 2
  instructions := [(.getLocal, [0]), (.getLocal, [1]), (.setProperty, [0]), (.pop, []),
    (.getLocal, [0]), (.getLocal, [2]), (.setProperty, [1]), (.pop, []), (.getLocal, [0]),
    (.ret, [])]
  constants := [.text "storage", .text "count"]

/-- Reads an element; an index and `get` do the same. -/
def element : Listing where
  arity := 1
  instructions := [(.getLocal, [0]), (.getLocal, [1]), (.invoke, [0, 1]), (.ret, []),
    (.pushNil, []), (.ret, [])]
  constants := [.text "storage"]

/-- Adds an element. -/
def append : Listing where
  arity := 1
  instructions := [(.getLocal, [0]), (.getGlobal, [1]), (.getLocal, [0]), (.getProperty, [0]),
    (.getLocal, [1]), (.call, [2]), (.setProperty, [0]), (.pop, []), (.getLocal, [0]),
    (.getLocal, [0]), (.getProperty, [2]), (.constant, [3]), (.add, []), (.setProperty, [2]),
    (.pop, []), (.pushNil, []), (.ret, [])]
  constants := [.text "storage", .text "_append", .text "count", .int 1]

/-- Says whether there are no elements. -/
def isEmpty : Listing where
  arity := 0
  instructions := [(.getLocal, [0]), (.getProperty, [0]), (.constant, [1]), (.equal, []),
    (.ret, []), (.pushNil, []), (.ret, [])]
  constants := [.text "count", .int 0]

/-- Describes the elements. -/
def description : Listing where
  arity := 0
  instructions := [(.getGlobal, [0]), (.getLocal, [0]), (.getProperty, [1]), (.call, [1]),
    (.ret, []), (.pushNil, []), (.ret, [])]
  constants := [.text "_describe", .text "storage"]

/-- Declares the class for arrays. -/
def main : Listing where
  arity := 0
  instructions := [(.newClass, [0]), (.defineGlobal, [0]), (.getGlobal, [0]), (.closure, [2]),
    (.method, [1]), (.closure, [4]), (.method, [3]), (.closure, [6]), (.method, [5]),
    (.closure, [8]), (.method, [7]), (.closure, [10]), (.computedProperty, [9]), (.closure, [12]),
    (.computedProperty, [11]), (.pop, []), (.pushNil, []), (.ret, [])]
  constants := [.text "Array", .text "init", .function 0, .text "subscript", .function 1,
    .text "get", .function 2, .text "append", .function 3, .text "isEmpty", .function 4,
    .text "description", .function 5]

/-- The functions of the prelude. -/
def prelude : List Listing :=
  [init, element, element, append, isEmpty, description, main]

theorem describes_iff {l : Listing} {f : Function} : l.describes f = true ↔
    f.arity = l.arity ∧ f.captureCount = 0 ∧ f.chunk.code.toList = l.code ∧
      f.chunk.constants.toList.map Written.of? = l.constants.map some := by
  simp [describes]

end Listing

/-- Whether a compilation gives the listed functions, the last one first to run. -/
def Program.isListed (listings : List Listing) : Except (List CompileError) Program → Bool
  | .ok program =>
    program.main.index + 1 = listings.length ∧ program.functions.size = listings.length ∧
      (listings.zip program.functions.toList).all fun p => p.1.describes p.2
  | .error _ => false

/-- A compilation that is listed gives the listed functions, one by one. -/
theorem Program.exists_of_isListed {listings : List Listing}
    {result : Except (List CompileError) Program} (h : isListed listings result = true) :
    ∃ program, result = .ok program ∧ program.main.index + 1 = listings.length ∧
      program.functions.size = listings.length ∧
      ∀ p ∈ listings.zip program.functions.toList, p.1.describes p.2 = true := by
  unfold isListed at h
  split at h
  · next program =>
    simp only [decide_eq_true_eq, List.all_eq_true] at h
    exact ⟨program, rfl, h⟩
  · cases h

/-- **The prelude compiles** to the listed functions. -/
theorem Program.isListed_prelude : isListed Listing.prelude (compile prelude) = true := by
  rw [compile, compileAfter, Builder.complete, scan_prelude]
  decide +kernel

/-- A compiled function is the listed one, if other functions come first. -/
def Listing.Is (l : Listing) (count : Nat) (f : Function) : Prop :=
  f.body = l.body count ∧ f.captureCount = 0

/-- A listed function stays so behind other functions, whatever its lines are. -/
theorem Listing.describes_is {l : Listing} {f g : Function} (h : l.describes f = true) {count : Nat}
    (hg : g.SameButLines (f.displaced count)) : l.Is count g := by
  obtain ⟨harity, hcaptures, hcode, hconstants⟩ := describes_iff.1 h
  refine ⟨?_, hg.captureCount.trans hcaptures⟩
  have hdisplaced : f.chunk.constants.toList.map (Value.displaced count) =
      l.constants.map (Written.value count) := by
    refine List.ext_getElem? fun i => ?_
    have hi := congrArg (·[i]?) hconstants
    simp only [List.getElem?_map] at hi ⊢
    cases hv : f.chunk.constants.toList[i]? with
    | none =>
      cases hw : l.constants[i]? with
      | none => rfl
      | some w => simp [hv, hw] at hi
    | some v =>
      cases hw : l.constants[i]? with
      | none => simp [hv, hw] at hi
      | some w =>
        simp only [hv, hw, Option.map_some, Option.some.injEq] at hi ⊢
        exact Written.displaced_of_of? hi count
  have hbody : g.body = ⟨f.arity, f.chunk.code.toList,
      (f.chunk.constants.map (Value.displaced count)).toList⟩ := by
    rw [Function.body, hg.arity, hg.code, hg.constants]
  rw [hbody, Array.toList_map, hdisplaced, harity, hcode]
  rfl

/-- **What compiles to listed functions** does so behind any functions. -/
theorem Program.compileAfter_of_isListed {listings : List Listing} {source : String}
    (h : isListed listings (compile source) = true) (functions : Array Function) :
    ∃ program, compileAfter functions source = .ok program ∧
      program.main.index + 1 = listings.length + functions.size ∧
      ∀ (k : Nat) (l : Listing), listings[k]? = some l →
        ∃ f, program.functions[k + functions.size]? = some f ∧ l.Is functions.size f := by
  obtain ⟨program, hcompile, hmain, hsize, hall⟩ := exists_of_isListed h
  obtain ⟨program', hcompile', hmain', hsame⟩ := compile_behind functions hcompile
  refine ⟨program', hcompile', ?_, fun k l hl => ?_⟩
  · rw [hmain', ← hmain, Nat.add_right_comm]
  have hk : k < program.functions.toList.length := by
    rw [Array.length_toList, hsize]
    exact (List.getElem?_eq_some_iff.1 hl).1
  have hdescribes : l.describes program.functions.toList[k] = true := by
    refine hall (l, program.functions.toList[k]) (List.mem_iff_getElem?.2 ⟨k, ?_⟩)
    rw [List.getElem?_zip_eq_some]
    exact ⟨hl, List.getElem?_eq_getElem hk⟩
  have hbehind : (functions.toList ++ program.functions.toList.map
      (Function.displaced functions.size))[k + functions.size]? =
        some (program.functions.toList[k].displaced functions.size) := by
    rw [List.getElem?_append_right (by simp), Array.length_toList, Nat.add_sub_cancel,
      List.getElem?_map, List.getElem?_eq_getElem hk]
    rfl
  obtain ⟨hlt, hget⟩ := List.getElem?_eq_some_iff.1 hbehind
  have hlt' : k + functions.size < program'.functions.toList.length := by
    rw [hsame.length_eq]
    exact hlt
  have hgiven := hsame.get hlt' hlt
  rw [List.get_eq_getElem, List.get_eq_getElem, hget] at hgiven
  refine ⟨program'.functions.toList[k + functions.size], ?_, Listing.describes_is hdescribes hgiven⟩
  rw [← Array.getElem?_toList]
  exact List.getElem?_eq_getElem hlt'

/-! ## Members of classes -/

/-- A class binds a name to a closure of what runs some code. -/
def Heap.Offers (heap : Heap) (id : ClassId) (kind : MemberKind) (name : String) (body : Body) :
    Prop :=
  ∃ closure, heap.member? kind id name = some closure ∧ closure.index < heap.closures.size ∧
    (heap.closure closure).function.index < heap.functions.size ∧
    (heap.functionOf closure).body = body

/-- The objects once a class has been given a new closure as a member. -/
def Heap.withMember (heap : Heap) (id : ClassId) (kind : MemberKind) (name : String)
    (function : FunctionId) : Heap :=
  (heap.newClosure ⟨function, #[]⟩).2.declare id ⟨kind, name, ⟨heap.closures.size⟩⟩

/-- A member that is going to be declared. -/
structure PlannedMember where
  /-- Its kind. -/
  kind : MemberKind
  /-- Its name. -/
  name : String
  /-- Its function. -/
  function : FunctionId

/-- A member has a kind and a name. -/
def PlannedMember.Has (x : PlannedMember) (kind : MemberKind) (name : String) : Prop :=
  x.kind = kind ∧ x.name = name

instance (x : PlannedMember) (kind : MemberKind) (name : String) : Decidable (x.Has kind name) :=
  inferInstanceAs (Decidable (_ ∧ _))

/-- The objects once a class has been given some members. -/
def Heap.withMembers (heap : Heap) (id : ClassId) (members : List PlannedMember) : Heap :=
  members.foldl (fun heap x => heap.withMember id x.kind x.name x.function) heap

namespace Heap

variable {heap : Heap} {id : ClassId} {kind kind' : MemberKind} {name name' : String}
  {function : FunctionId} {body : Body} {members : List PlannedMember}

theorem closures_declare (x : DeclaredMember) : (heap.declare id x).closures = heap.closures := by
  unfold declare
  split <;> rfl

theorem functions_declare (x : DeclaredMember) :
    (heap.declare id x).functions = heap.functions := by
  unfold declare
  split <;> rfl

theorem size_classes_declare (x : DeclaredMember) :
    (heap.declare id x).classes.size = heap.classes.size := by
  unfold declare
  split <;> exact Array.size_modify ..

@[simp] theorem functions_withMember :
    (heap.withMember id kind name function).functions = heap.functions :=
  functions_declare _

@[simp] theorem size_classes_withMember :
    (heap.withMember id kind name function).classes.size = heap.classes.size :=
  size_classes_declare _

theorem closures_withMember :
    (heap.withMember id kind name function).closures = heap.closures.push ⟨function, #[]⟩ :=
  closures_declare _

/-- A new member is found under its name, and hides no other. -/
theorem member?_withMember (h : id.index < heap.classes.size) :
    (heap.withMember id kind name function).member? kind' id name' =
      if kind = kind' ∧ name = name' then some ⟨heap.closures.size⟩
      else heap.member? kind' id name' := by
  have hdeclare : (heap.withMember id kind name function).member? kind' id name' =
      if id = id ∧ kind = kind' ∧ name = name' then some ⟨heap.closures.size⟩
      else (heap.newClosure ⟨function, #[]⟩).2.member? kind' id name' :=
    member?_declare (show id.index < (heap.newClosure ⟨function, #[]⟩).2.classes.size from h)
      ⟨kind, name, ⟨heap.closures.size⟩⟩
  rw [hdeclare]
  simp only [true_and]
  rfl

/-- The new member is offered. -/
theorem offers_withMember (h : id.index < heap.classes.size)
    (hfunction : function.index < heap.functions.size)
    (hbody : (heap.function function).body = body) :
    (heap.withMember id kind name function).Offers id kind name body := by
  refine ⟨⟨heap.closures.size⟩, ?_, ?_, ?_, ?_⟩
  · rw [member?_withMember h, if_pos ⟨rfl, rfl⟩]
  · rw [closures_withMember, Array.size_push]
    exact Nat.lt_succ_self _
  · rw [Heap.closure, closures_withMember, functions_withMember]
    simpa using hfunction
  · rw [functionOf, Heap.closure, closures_withMember, Heap.function, functions_withMember]
    simpa [Heap.function] using hbody

/-- The other members are still offered. -/
theorem Offers.withMember (hoffers : heap.Offers id kind name body)
    (h : id.index < heap.classes.size)
    (hne : ¬(kind' = kind ∧ name' = name)) :
    (heap.withMember id kind' name' function).Offers id kind name body := by
  obtain ⟨closure, hmember, hlt, hfunction, hbody⟩ := hoffers
  have hclosure :
      (heap.withMember id kind' name' function).closure closure = heap.closure closure := by
    rw [Heap.closure, closures_withMember]
    exact closure_newClosure heap _ hlt
  refine ⟨closure, ?_, ?_, ?_, ?_⟩
  · rw [member?_withMember h, if_neg hne, hmember]
  · rw [closures_withMember, Array.size_push]
    exact Nat.lt_succ_of_lt hlt
  · rw [hclosure, functions_withMember]
    exact hfunction
  · rw [functionOf, hclosure, Heap.function, functions_withMember]
    exact hbody

/-- Other members leave a member alone. -/
theorem Offers.withMembers (hoffers : heap.Offers id kind name body)
    (h : id.index < heap.classes.size) (hne : ∀ x ∈ members, ¬x.Has kind name) :
    (heap.withMembers id members).Offers id kind name body := by
  induction members generalizing heap with
  | nil => exact hoffers
  | cons x rest ih =>
    simp only [List.forall_mem_cons] at hne
    exact ih (hoffers.withMember h hne.1) (by simpa using h) hne.2

/-- Members with names of their own are all offered. -/
theorem offers_withMembers (h : id.index < heap.classes.size)
    (hnames : members.Pairwise fun x y => ¬y.Has x.kind x.name) {x : PlannedMember}
    (hx : x ∈ members)
    (hfunction : x.function.index < heap.functions.size)
    (hbody : (heap.function x.function).body = body) :
    (heap.withMembers id members).Offers id x.kind x.name body := by
  induction members generalizing heap with
  | nil => cases hx
  | cons y rest ih =>
    rw [List.pairwise_cons] at hnames
    rcases List.mem_cons.1 hx with rfl | hx
    · exact (offers_withMember h hfunction hbody).withMembers (by simpa using h) hnames.1
    · refine ih (by simpa using h) hnames.2 hx (by simpa using hfunction) ?_
      rwa [Heap.function, functions_withMember]

/-- A member that is not among new ones is found as before. -/
theorem member?_withMembers (h : id.index < heap.classes.size)
    (hne : ∀ x ∈ members, ¬x.Has kind name) :
    (heap.withMembers id members).member? kind id name = heap.member? kind id name := by
  induction members generalizing heap with
  | nil => rfl
  | cons x rest ih =>
    simp only [List.forall_mem_cons] at hne
    exact (ih (by simpa using h) hne.2).trans ((member?_withMember h).trans (if_neg hne.1))

/-- New members add no classes. -/
theorem size_classes_withMembers :
    (heap.withMembers id members).classes.size = heap.classes.size := by
  induction members generalizing heap with
  | nil => rfl
  | cons x rest ih => exact ih.trans size_classes_withMember

/-- What has been finished is offered for ever. -/
theorem Keeps.offers {heap' : Heap} {count : Nat} (h : heap.Keeps count heap')
    (hid : id.index < count)
    (hoffers : heap.Offers id kind name body) : heap'.Offers id kind name body := by
  obtain ⟨closure, hmember, hlt, hfunction, hbody⟩ := hoffers
  refine ⟨closure, ?_, ?_, ?_, ?_⟩
  · rw [member?, h.classAt id hid]
    exact hmember
  · exact Nat.lt_of_lt_of_le hlt h.closures.length_le
  · rw [h.closure hlt]
    exact Nat.lt_of_lt_of_le hfunction h.functions.length_le
  · rw [functionOf, h.closure hlt, h.function hfunction]
    exact hbody

end Heap

/-- A class is the one that the prelude declares: it offers what the prelude lists, and no property
hides a method. -/
structure Heap.HasArrays (heap : Heap) (id : ClassId) : Prop where
  /-- New instances are given their fields. -/
  init : heap.Offers id .method "init" (Listing.init.body 0)
  /-- An index reads an element. -/
  subscript : heap.Offers id .method "subscript" (Listing.element.body 0)
  /-- So does a method. -/
  get : heap.Offers id .method "get" (Listing.element.body 0)
  /-- A method adds an element. -/
  append : heap.Offers id .method "append" (Listing.append.body 0)
  /-- A property says whether there are elements. -/
  isEmpty : heap.Offers id .property "isEmpty" (Listing.isEmpty.body 0)
  /-- No property has the name of a method. -/
  unhidden : ∀ name ∈ ["get", "append"], heap.member? .property id name = none

/-- The class of arrays stays what it is while it is kept. -/
theorem Heap.Keeps.hasArrays {heap heap' : Heap} {id : ClassId} {count : Nat}
    (h : heap.Keeps count heap') (hid : id.index < count) (harrays : heap.HasArrays id) :
    heap'.HasArrays id where
  init := h.offers hid harrays.init
  subscript := h.offers hid harrays.subscript
  get := h.offers hid harrays.get
  append := h.offers hid harrays.append
  isEmpty := h.offers hid harrays.isEmpty
  unhidden name hname := by
    rw [Heap.member?, h.classAt id hid]
    exact harrays.unhidden name hname

/-! ## The run of the prelude -/

section

variable {heap : Heap} {globals : Bindings Value} {id : ClassId} {c : ClosureId} {body : Body}
  {ip s : Nat} {r : Resume} {rest : List Frame} {values : List Value} {outcome : Option Value}
  {v : View} {kind : MemberKind} {name : String} {function : FunctionId} {byte byte' : UInt8}
  {functions : Array Function}

/-- Among some functions, a closure is there and runs some code. -/
structure Heap.Runs (heap : Heap) (functions : Array Function) (c : ClosureId) (body : Body) :
    Prop where
  /-- These are the functions. -/
  functions_eq : heap.functions = functions
  /-- The closure is there. -/
  lt : c.index < heap.closures.size
  /-- This is what it runs. -/
  body_eq : (heap.functionOf c).body = body

/-- A closure runs what it did when a class is given a member. -/
theorem Heap.Runs.withMember (h : heap.Runs functions c body) :
    (heap.withMember id kind name function).Runs functions c body where
  functions_eq := functions_withMember.trans h.functions_eq
  lt := by
    rw [closures_withMember, Array.size_push]
    exact Nat.lt_succ_of_lt h.lt
  body_eq := by
    have hclosure : (heap.withMember id kind name function).closure c = heap.closure c := by
      rw [Heap.closure, closures_withMember]
      exact closure_newClosure heap _ h.lt
    rw [functionOf, hclosure, Heap.function, functions_withMember]
    exact h.body_eq

/-- A closure runs what it did when a class is given some members. -/
theorem Heap.Runs.withMembers {members : List PlannedMember} (h : heap.Runs functions c body) :
    (heap.withMembers id members).Runs functions c body := by
  induction members generalizing heap with
  | nil => exact h
  | cons x rest ih => exact ih h.withMember

/-- A member is declared by two instructions. -/
theorem View.Path.member (hruns : heap.Runs functions c body)
    (hop : body.code[ip]? = some Opcode.closure.toByte) (hbyte : body.code[ip + 1]? = some byte)
    (hfunction : body.constants[byte.toNat]? = some (.functionRef function))
    (hcaptures : (functions.getD function.index default).captureCount = 0)
    (hop' : body.code[ip + 2]? = some kind.opcode.toByte)
    (hbyte' : body.code[ip + 2 + 1]? = some byte')
    (hname : body.constants[byte'.toNat]? = some (.string name))
    (hroom : values.length + 1 < stackLimit)
    (h : View.Path 0 outcome ⟨.classRef id :: values, ⟨c, ip + 2 + 2, s, r⟩ :: rest,
      heap.withMember id kind name function, globals⟩ v) :
    View.Path 0 outcome ⟨.classRef id :: values, ⟨c, ip, s, r⟩ :: rest, heap, globals⟩ v := by
  have hbody : ((heap.newClosure ⟨function, #[]⟩).2.functionOf c).body = body := by
    rw [Heap.functionOf, Heap.closure_newClosure heap _ hruns.lt]
    exact hruns.body_eq
  rw [← hruns.functions_eq] at hcaptures
  refine .next (Exec.step_closure hruns.body_eq hop hbyte hfunction hcaptures hroom)
    (Nat.succ_pos _) ?_
  exact .next (Exec.step_member hbody hop' hbyte' hname) (Nat.succ_pos _) h

/-- The members of the class of the prelude, where its functions stand behind `count` others. -/
def PlannedMember.prelude (count : Nat) : List PlannedMember :=
  [⟨.method, "init", ⟨0 + count⟩⟩, ⟨.method, "subscript", ⟨1 + count⟩⟩,
    ⟨.method, "get", ⟨2 + count⟩⟩,
    ⟨.method, "append", ⟨3 + count⟩⟩, ⟨.property, "isEmpty", ⟨4 + count⟩⟩,
    ⟨.property, "description", ⟨5 + count⟩⟩]

/-- The objects once the prelude has declared its class. -/
def Heap.withArrays (heap : Heap) (count : Nat) : Heap :=
  (heap.newClass "Array").2.withMembers ⟨heap.classes.size⟩ (PlannedMember.prelude count)

/-- The functions of a heap are the listed ones, behind some others. -/
def Heap.HasListed (heap : Heap) (listings : List Listing) (count : Nat) : Prop :=
  ∀ (k : Nat) (l : Listing), listings[k]? = some l →
    k + count < heap.functions.size ∧ l.Is count (heap.function ⟨k + count⟩)

/-- **The code of the prelude** declares the class for arrays. -/
theorem View.path_prelude {count : Nat} (hprelude : heap.HasListed Listing.prelude count)
    (hruns : heap.Runs heap.functions c (Listing.main.body count)) :
    View.Path 0 (some .nil) ⟨[.closureRef c], [⟨c, 0, 0, .finish⟩], heap, globals⟩
      ⟨[], [], heap.withArrays count, globals.insert "Array" (.classRef ⟨heap.classes.size⟩)⟩ := by
  have hroom : ∀ n < 10, n < stackLimit := by decide
  have hcaptures : ∀ k l, Listing.prelude[k]? = some l →
      (heap.function ⟨k + count⟩).captureCount = 0 := fun k l hl => (hprelude k l hl).2.2
  have hbody := hruns.body_eq
  refine .next (Exec.step_newClass hbody rfl rfl rfl (hroom 1 (by decide))) (Nat.succ_pos _) ?_
  refine .next (Exec.step_defineGlobal hbody rfl rfl rfl) (Nat.succ_pos _) ?_
  refine .next (Exec.step_getGlobal hbody rfl rfl rfl
    ((Bindings.get?_insert ..).trans (if_pos rfl)) (hroom 1 (by decide))) (Nat.succ_pos _) ?_
  have h₀ : (heap.newClass "Array").2.Runs heap.functions c (Listing.main.body count) :=
    ⟨rfl, hruns.lt, hbody⟩
  refine .member h₀ rfl rfl rfl (hcaptures 0 _ rfl)
    (show _ = some MemberKind.method.opcode.toByte from rfl)
    rfl rfl (hroom 2 (by decide)) ?_
  refine .member h₀.withMember rfl rfl rfl (hcaptures 1 _ rfl)
    (show _ = some MemberKind.method.opcode.toByte from rfl) rfl rfl (hroom 2 (by decide)) ?_
  refine .member h₀.withMember.withMember rfl rfl rfl (hcaptures 2 _ rfl)
    (show _ = some MemberKind.method.opcode.toByte from rfl) rfl rfl (hroom 2 (by decide)) ?_
  refine .member h₀.withMember.withMember.withMember rfl rfl rfl (hcaptures 3 _ rfl)
    (show _ = some MemberKind.method.opcode.toByte from rfl) rfl rfl (hroom 2 (by decide)) ?_
  refine .member h₀.withMember.withMember.withMember.withMember rfl rfl rfl (hcaptures 4 _ rfl)
    (show _ = some MemberKind.property.opcode.toByte from rfl) rfl rfl (hroom 2 (by decide)) ?_
  refine .member h₀.withMember.withMember.withMember.withMember.withMember rfl rfl rfl
    (hcaptures 5 _ rfl)
    (show _ = some MemberKind.property.opcode.toByte from rfl) rfl rfl (hroom 2 (by decide)) ?_
  have hlast : ((heap.withArrays count).functionOf c).body = Listing.main.body count :=
    h₀.withMembers.body_eq
  change View.Path 0 _ ⟨_, _, heap.withArrays count, _⟩ _
  refine .next (Exec.step_pop hlast rfl) (Nat.succ_pos _) ?_
  refine .next (Exec.step_pushNil hlast rfl (hroom 1 (by decide))) (Nat.succ_pos _) ?_
  exact .last (Exec.step_finish (X := [.closureRef c]) hlast rfl) (Nat.le_refl _)

/-- **The class that the prelude declares** offers its members. -/
theorem Heap.HasListed.hasArrays {count : Nat} (h : heap.HasListed Listing.prelude count) :
    (heap.withArrays count).HasArrays ⟨heap.classes.size⟩ := by
  have hsize : heap.classes.size < (heap.newClass "Array").2.classes.size := by
    simp [newClass]
  have hnames : (PlannedMember.prelude count).Pairwise fun x y => ¬y.Has x.kind x.name := by
    simp [PlannedMember.prelude, PlannedMember.Has]
  have hoffers : ∀ (k : Nat) (l : Listing) (x : PlannedMember), Listing.prelude[k]? = some l →
      (PlannedMember.prelude count)[k]? = some x → x.function = ⟨k + count⟩ →
      l.body count = l.body 0 →
      (heap.withArrays count).Offers ⟨heap.classes.size⟩ x.kind x.name (l.body 0) := by
    intro k l x hl hx hfunction hbody
    refine offers_withMembers hsize hnames (List.mem_of_getElem? hx) ?_ ?_
    · rw [hfunction]
      exact (h k l hl).1
    · rw [hfunction, ← hbody]
      exact (h k l hl).2.1
  exact {
    init := hoffers 0 .init ⟨.method, "init", _⟩ rfl rfl rfl rfl
    subscript := hoffers 1 .element ⟨.method, "subscript", _⟩ rfl rfl rfl rfl
    get := hoffers 2 .element ⟨.method, "get", _⟩ rfl rfl rfl rfl
    append := hoffers 3 .append ⟨.method, "append", _⟩ rfl rfl rfl rfl
    isEmpty := hoffers 4 .isEmpty ⟨.property, "isEmpty", _⟩ rfl rfl rfl rfl
    unhidden := fun name hname => by
      refine (member?_withMembers hsize fun x hx hhas => ?_).trans
        (heap.blank_newClass "Array").member?
      simp only [PlannedMember.prelude, List.mem_cons, List.not_mem_nil, or_false] at hx hname
      rcases hx with rfl | rfl | rfl | rfl | rfl | rfl <;> rcases hname with rfl | rfl <;>
        simp [PlannedMember.Has] at hhas }

end

/-! ## Sessions with the prelude -/

namespace Session

variable {natives : List Native} {s s' : Session} {pauses : List Pause}

/-- **A run of listed functions** starts at the beginning of the last one. -/
theorem Used.launch_listed (h : Used natives s) {source : String} {listings : List Listing}
    {main : Listing} (hlisted : Program.isListed listings (Program.compile source) = true)
    (hlast : listings.getLast? = some main) (harity : main.arity = 0) :
    ∃ program m c heap, Program.compileAfter s.machine.heap.functions source = .ok program ∧
      (s.machine.load program).launch program.main = .running m ∧
      m.view = ⟨[.closureRef c], [⟨c, 0, 0, .finish⟩], heap, s.machine.globals⟩ ∧
      heap.HasListed listings s.machine.heap.functions.size ∧
      heap.Runs heap.functions c (main.body s.machine.heap.functions.size) ∧
      heap.classes = s.machine.heap.classes ∧ heap.instances = s.machine.heap.instances := by
  obtain ⟨program, hcompile, hmain, hfunctions⟩ :=
    Program.compileAfter_of_isListed hlisted s.machine.heap.functions
  obtain ⟨blueprints, ⟨W, hground, hat⟩, hcalls⟩ := h.rests
  have hvalues : s.machine.values = [] := List.forall₂_nil_right_iff.1 hat.values
  let loaded : Heap := (s.machine.load program).heap.withoutCells
  have hhas : loaded.HasListed listings s.machine.heap.functions.size := by
    intro k l hl
    obtain ⟨f, hf, his⟩ := hfunctions k l hl
    have hfunction : loaded.function ⟨k + s.machine.heap.functions.size⟩ = f := by
      rw [Heap.function, Array.getD_eq_getD_getElem?]
      exact congrArg (Option.getD · default) hf
    exact ⟨(Array.getElem?_eq_some_iff.1 hf).1, hfunction ▸ his⟩
  have hview : (s.machine.load program).view = ⟨[], [], loaded, s.machine.globals⟩ :=
    (View.mk.injEq ..).mpr ⟨hvalues, hcalls, rfl, rfl⟩
  have hbody : (loaded.function program.main).body = main.body s.machine.heap.functions.size := by
    rw [List.getLast?_eq_getElem?] at hlast
    have hlt := (List.getElem?_eq_some_iff.1 hlast).1
    have hindex : program.main.index = listings.length - 1 + s.machine.heap.functions.size := by
      omega
    rw [show program.main = ⟨listings.length - 1 + s.machine.heap.functions.size⟩ from
      congrArg FunctionId.mk hindex]
    exact (hhas _ main hlast).2.1
  obtain ⟨m, hlaunch, hm⟩ := Machine.exists_launch_view hview
    ((congrArg Body.arity hbody).trans harity)
  refine ⟨program, m, _, _, hcompile, hlaunch, hm, hhas, ⟨rfl, ?_, ?_⟩, rfl, rfl⟩
  · simp [Heap.newClosure]
  · rw [Heap.functionOf_newClosure]
    exact hbody

/-- The run of the prelude follows its path. -/
theorem Used.prelude_path (h : Used natives s) :
    ∃ program m v, Program.compileAfter s.machine.heap.functions prelude = .ok program ∧
      (s.machine.load program).launch program.main = .running m ∧ m.view.Path 0 (some .nil) v ∧
      v.heap.HasArrays ⟨s.machine.heap.classes.size⟩ ∧
      v.heap.classes.size = s.machine.heap.classes.size + 1 ∧
      v.globals = s.machine.globals.insert "Array" (.classRef ⟨s.machine.heap.classes.size⟩) := by
  obtain ⟨program, m, c, heap, hcompile, hlaunch, hm, hprelude, hruns, hclasses, -⟩ :=
    h.launch_listed Program.isListed_prelude rfl rfl
  rw [← hclasses]
  refine ⟨program, m, _, hcompile, hlaunch, hm ▸ View.path_prelude hprelude hruns,
    hprelude.hasArrays, ?_, rfl⟩
  rw [Heap.withArrays, Heap.size_classes_withMembers]
  simp [Heap.newClass]

/-- To run a source that compiles is to load its functions and run the main one. -/
theorem run_of_compileAfter {runner : Runner Option} {source : String} {program : Program}
    (s : Session) (hcompile : Program.compileAfter s.machine.heap.functions source = .ok program) :
    s.run runner source =
      ({ s with machine := s.machine.load program } : Session).runFunction runner program.main := by
  unfold Session.run
  rw [hcompile]
  rfl

/-- **The prelude loads**: whatever a session has run before, and however that ended, the run of the
prelude succeeds if it is given time.  It defines the class for arrays. -/
theorem Used.loads {result : Except InterpretError Unit} (h : Used natives s)
    (hunloaded : s.preludeLoaded = false)
    (hload : s.loadPrelude (.paced pauses) = some (result, s')) :
    result = .ok () ∧ s'.machine.heap.HasArrays ⟨s.machine.heap.classes.size⟩ ∧
      s'.machine.heap.classes.size = s.machine.heap.classes.size + 1 ∧
      s'.machine.globals =
        s.machine.globals.insert "Array" (.classRef ⟨s.machine.heap.classes.size⟩) := by
  obtain ⟨program, m, v, hcompile, hlaunch, hpath, harrays, hsize, hglobals⟩ := h.prelude_path
  unfold loadPrelude at hload
  rw [if_neg (by rw [hunloaded]; decide)] at hload
  obtain ⟨⟨outcome, s''⟩, hrun, hreturn⟩ := Option.bind_eq_some_iff.1 hload
  obtain ⟨rfl, rfl⟩ := Prod.mk.inj (Option.some.inj hreturn)
  rw [run_of_compileAfter { s with preludeLoaded := true } hcompile] at hrun
  obtain ⟨⟨o, m'⟩, hpaced, hreturn'⟩ := Option.bind_eq_some_iff.1 hrun
  obtain ⟨rfl, rfl⟩ := Prod.mk.inj (Option.some.inj hreturn')
  obtain ⟨last, hends⟩ := Machine.Progress.ends_of_launch hpaced
  obtain ⟨rfl, hview⟩ := hends.path hlaunch hpath
  subst hview
  exact ⟨rfl, ⟨harrays.init, harrays.subscript, harrays.get, harrays.append, harrays.isEmpty,
    harrays.unhidden⟩, hsize, hglobals⟩

/-- The prelude loads if it is given time. -/
theorem Used.exists_loads (h : Used natives s) (hunloaded : s.preludeLoaded = false) :
    ∃ pauses s', s.loadPrelude (.paced pauses) = some (.ok (), s') := by
  obtain ⟨program, m, v, hcompile, hlaunch, hpath, -⟩ := h.prelude_path
  obtain ⟨n, m', hadvance, -⟩ := hpath.exists_advance rfl
  refine ⟨[⟨n, id, 0⟩], ⟨m', true⟩, ?_⟩
  have hpaced : Runner.paced [⟨n, id, 0⟩] ((s.machine.load program).launch program.main) =
      some (.ok .nil, m') := by
    rw [Runner.paced_singleton, Runner.limited, hlaunch]
    exact congrArg Machine.Progress.outcome? hadvance
  have hrun : Session.run (Runner.paced [⟨n, id, 0⟩]) { s with preludeLoaded := true } prelude =
      some (.ok .nil, ⟨m', true⟩) := by
    rw [run_of_compileAfter { s with preludeLoaded := true } hcompile, runFunction, hpaced]
    rfl
  unfold loadPrelude
  rw [if_neg (by rw [hunloaded]; decide), hrun]
  rfl

end Session

end ScriptVM
