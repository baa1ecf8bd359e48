/-
# The parts of instructions on renamed machines

Two machines do the same thing at the same time, one with other numbers for its functions and
closures, and with the code of its lowest call as a part of longer code (`Machine.InStep`).  Above
the lowest slot their stacks hold the same values; the lowest slot, which belongs to the lowest
call, is never looked at.

`Exec.Mirrors` says of two parts of a run that the second does what the first does, unless the first
finds the code broken.  Each part of an instruction follows itself, if there are as many values
above the lowest slot as it takes.
-/
import Mathlib.Data.List.Find
import ScriptVM.Proofs.Machine.Execution
import ScriptVM.Proofs.Machine.Renaming

namespace ScriptVM

/-! ## Stacks above the lowest item -/

/-- Two stacks, topmost first, whose items are related, the lowest ones in a way of their own. -/
inductive OnBottom {α β : Type} (R B : α → β → Prop) : List α → List β → Prop
  | bottom {a : α} {b : β} (h : B a b) : OnBottom R B [a] [b]
  | above {a : α} {b : β} {as : List α} {bs : List β} (h : R a b) (hrest : OnBottom R B as bs) :
      OnBottom R B (a :: as) (b :: bs)

namespace OnBottom

variable {α β : Type} {R B : α → β → Prop} {as xs : List α} {bs ys : List β} {a a' : α} {b b' : β}
  {i n : Nat}

theorem length_eq (h : OnBottom R B as bs) : as.length = bs.length := by
  induction h with
  | bottom _ => rfl
  | above _ _ ih => exact congrArg (· + 1) ih

/-- Related items may be put on top. -/
theorem append (hx : List.Forall₂ R xs ys) (h : OnBottom R B as bs) :
    OnBottom R B (xs ++ as) (ys ++ bs) := by
  induction hx with
  | nil => exact h
  | cons hab _ ih => exact .above hab ih

/-- The upper items are related. -/
theorem exists_append (h : OnBottom R B as bs) (hn : n < as.length) :
    ∃ xs ys cs ds, as = xs ++ cs ∧ bs = ys ++ ds ∧ xs.length = n ∧ List.Forall₂ R xs ys ∧
      OnBottom R B cs ds := by
  induction n generalizing as bs with
  | zero => exact ⟨[], [], as, bs, rfl, rfl, rfl, .nil, h⟩
  | succ n ih =>
    cases h with
    | bottom _ => exact absurd hn (by simp)
    | above hab hrest =>
      obtain ⟨xs, ys, cs, ds, rfl, rfl, hlength, hx, hrest⟩ := ih hrest (Nat.lt_of_succ_lt_succ hn)
      exact ⟨_ :: xs, _ :: ys, cs, ds, rfl, rfl, congrArg (· + 1) hlength, .cons hab hx, hrest⟩

/-- An item above the lowest one is related. -/
theorem getElem? (h : OnBottom R B as bs) (hi : i + 1 < as.length) :
    ∃ a b, as[i]? = some a ∧ bs[i]? = some b ∧ R a b := by
  induction i generalizing as bs with
  | zero =>
    cases h with
    | bottom _ => exact absurd hi (by simp)
    | above hab _ => exact ⟨_, _, rfl, rfl, hab⟩
  | succ i ih =>
    cases h with
    | bottom _ => exact absurd hi (by simp)
    | above _ hrest => exact ih hrest (Nat.lt_of_succ_lt_succ hi)

/-- An item that is not the lowest one cuts both stacks at the same place. -/
theorem exists_cut (h : OnBottom R B as bs) (hi : i < as.length) (hpos : 0 < i) :
    ∃ xs a cs ys b ds, as = xs ++ a :: cs ∧ bs = ys ++ b :: ds ∧ List.Forall₂ R xs ys ∧ R a b ∧
      OnBottom R B cs ds ∧ cs.length = i := by
  obtain ⟨xs, ys, cs, ds, rfl, rfl, hlength, hx, hrest⟩ :=
    h.exists_append (n := as.length - 1 - i) (by omega)
  rw [List.length_append] at hlength hi
  cases hrest with
  | bottom _ =>
    rw [List.length_singleton] at hlength hi
    omega
  | @above a b cs ds hab hrest =>
    refine ⟨xs, a, cs, ys, b, ds, rfl, rfl, hx, hab, hrest, ?_⟩
    rw [List.length_cons] at hlength hi
    omega

end OnBottom

/-- Related lists between related lists are put together alike. -/
theorem forall₂_intercalate {α β : Type} {R : α → β → Prop} {as : List α} {bs : List β}
    {xs : List (List α)} {ys : List (List β)} (h : List.Forall₂ R as bs)
    (hx : List.Forall₂ (List.Forall₂ R) xs ys) :
    List.Forall₂ R (List.intercalate as xs) (List.intercalate bs ys) := by
  induction hx with
  | nil => exact .nil
  | cons hxy hrest ih =>
    cases hrest with
    | nil => simpa [List.intercalate] using hxy
    | cons hxy' hrest =>
      rw [List.intercalate_cons_cons, List.intercalate_cons_cons]
      exact List.rel_append (List.rel_append hxy h) ih

/-! ## Calls -/

/-- Two pieces of descriptions that are the same. -/
inductive Piece.Renamed (ρ : Renaming) : Piece → Piece → Prop
  | text (s : String) : Renamed ρ (.text s) (.text s)
  | leaf {v v' : Value} (h : v.Renamed ρ v') : Renamed ρ (.leaf v) (.leaf v')

/-- Two uses of a result inside a run that are the same. -/
inductive Resume.Renamed (ρ : Renaming) : Resume → Resume → Prop
  | caller : Renamed ρ .caller .caller
  | property : Renamed ρ .property .property
  | invocation (arguments : UInt8) : Renamed ρ (.invocation arguments) (.invocation arguments)
  | superProperty : Renamed ρ .superProperty .superProperty
  | description (purpose : Purpose) (done : String) {rest rest' : List Piece}
      (h : List.Forall₂ (Piece.Renamed ρ) rest rest') :
      Renamed ρ (.description ⟨purpose, done, rest⟩) (.description ⟨purpose, done, rest'⟩)

namespace Resume.Renamed

variable {ρ : Renaming} {r r' : Resume}

theorem isNested_eq (h : r.Renamed ρ r') : r.isNested = r'.isNested := by
  cases h <;> rfl

end Resume.Renamed

/-- Two machines whose functions and closures are numbered by a renaming, and their lowest calls. -/
structure Pairing extends Renaming where
  /-- The closure of the lowest call of the first machine. -/
  main : ClosureId
  /-- The closure of the lowest call of the second machine. -/
  main' : ClosureId
  /-- The function of the lowest call of the first machine. -/
  script : FunctionId
  /-- The function of the lowest call of the second machine. -/
  script' : FunctionId
  /-- The offset at which the code of the first one stands in that of the second one. -/
  shift : Nat

/-- Two calls of the same closure at the same place.  The slots below are enough for what is done
with their results, without the lowest one. -/
structure Frame.Renamed (ρ : Renaming) (f f' : Frame) : Prop where
  /-- They call the same closure. -/
  closure : ρ.closure f.closure f'.closure
  /-- They stand at the same place. -/
  ip : f.ip = f'.ip
  /-- Their slots count from the same callee. -/
  slots : f.slots = f'.slots
  /-- The result is used alike. -/
  resume : f.resume.Renamed ρ f'.resume
  /-- What is taken together with the result is above the lowest slot. -/
  room : f.resume.waiting < f.slots

/-- The lowest calls of two machines. -/
structure Frame.Lowest (P : Pairing) (f f' : Frame) : Prop where
  /-- The first one is that of the first machine. -/
  closure : f.closure = P.main
  /-- The second one is that of the second machine. -/
  closure' : f'.closure = P.main'
  /-- They stand at places that correspond to each other. -/
  ip : f'.ip = f.ip + P.shift
  /-- The slots of the first one count from the lowest one. -/
  slots : f.slots = 0
  /-- The slots of the second one count from the lowest one. -/
  slots' : f'.slots = 0
  /-- The result of the first one is that of the run. -/
  resume : f.resume = .finish
  /-- The result of the second one is that of the run. -/
  resume' : f'.resume = .finish

/-- Two machines with the same objects and global variables, whatever they are doing. -/
structure Machine.Renamed (ρ : Renaming) (m m' : Machine) : Prop where
  /-- The objects are the same. -/
  heap : m.heap.Renamed ρ m'.heap
  /-- The global variables have the same values. -/
  globals : m.globals.Alike (Value.Renamed ρ) m'.globals
  /-- They write to the same place. -/
  sink : m.sink = m'.sink
  /-- The time is the same. -/
  now : m.now = m'.now

/-- Two machines in step, with more than a number of values on their stacks. -/
structure Machine.InStep (P : Pairing) (n : Nat) (m m' : Machine) : Prop
    extends Machine.Renamed P.toRenaming m m' where
  /-- Above the lowest slot the values are the same. -/
  values : OnBottom (Value.Renamed P.toRenaming) (fun _ _ => True) m.values m'.values
  /-- There are enough of them. -/
  room : n < m.values.length
  /-- The calls are the same above the lowest ones. -/
  calls : OnBottom (Frame.Renamed P.toRenaming) (Frame.Lowest P) m.calls m'.calls
  /-- The open cells are the same. -/
  openCells : m.openCells = m'.openCells
  /-- The open cells are there. -/
  known : ∀ id ∈ m.openCells, CellId.index id < m.heap.cells.size
  /-- The closure of the first lowest call. -/
  main : m.heap.closures[P.main.index]? = some ⟨P.script, #[]⟩
  /-- The closure of the second lowest call. -/
  main' : m'.heap.closures[P.main'.index]? = some ⟨P.script', #[]⟩

namespace Exec

/-! ## Parts that mirror each other -/

/-- The second part of a run does on a machine what the first one does on another, and a condition
holds if they succeed; nothing is said if the first one finds the code broken. -/
def Mirrors {α : Type} (x y : Exec α) (m m' : Machine)
    (Q : α → α → Machine → Machine → Prop) : Prop :=
  match x m, y m' with
  | .ok a n, .ok a' n' => Q a a' n n'
  | .error (.internal _) _, _ => True
  | .error (.runtime e) _, .error (.runtime e') _ => e = e'
  | _, _ => False

section

variable {α β : Type} {x y : Exec α} {f f' : α → Exec β} {m m' n n' : Machine} {a a' : α}
  {Q S : α → α → Machine → Machine → Prop} {T : β → β → Machine → Machine → Prop}

theorem Mirrors.of_eq (hx : x m = .ok a n) (hx' : y m' = .ok a' n') (h : Q a a' n n') :
    Mirrors x y m m' Q := by
  rw [Mirrors, hx, hx']
  exact h

theorem Mirrors.pure (h : Q a a' m m') : Mirrors (pure a) (pure a') m m' Q :=
  h

theorem Mirrors.raise {e : RuntimeError} : Mirrors (raise e) (raise e) m m' Q :=
  (rfl : e = e)

theorem Mirrors.defect {e : Defect} : Mirrors (defect e) y m m' Q :=
  trivial

/-- What is said of the outcome may say less. -/
theorem Mirrors.imp (h : Mirrors x y m m' Q) (hQ : ∀ a a' n n', Q a a' n n' → S a a' n n') :
    Mirrors x y m m' S := by
  unfold Mirrors at h ⊢
  split at h
  · exact hQ _ _ _ _ h
  · trivial
  · exact h
  · exact h.elim

/-- The outcomes are those of the two parts. -/
theorem Mirrors.with_eq (h : Mirrors x y m m' Q) :
    Mirrors x y m m' fun a a' n n' => Q a a' n n' ∧ x m = .ok a n ∧ y m' = .ok a' n' := by
  unfold Mirrors at h ⊢
  split at h
  · next hx hx' => exact ⟨h, hx, hx'⟩
  · trivial
  · exact h
  · exact h.elim

/-- Parts that mirror each other do so one behind the other. -/
theorem Mirrors.bind (h : Mirrors x y m m' Q)
    (hf : ∀ a a' n n', Q a a' n n' → Mirrors (f a) (f' a') n n' T) :
    Mirrors (x >>= f) (y >>= f') m m' T := by
  simp only [Mirrors, Bind.bind, EStateM.bind] at h ⊢
  split at h
  · next hx hx' =>
    rw [hx, hx']
    exact hf _ _ _ _ h
  · next hx =>
    rw [hx]
    trivial
  · next hx hx' =>
    rw [hx, hx']
    exact h
  · exact h.elim

/-- Parts whose outcomes are known. -/
theorem Mirrors.bind_of_eq (hx : x m = .ok a n) (hx' : y m' = .ok a' n')
    (h : Mirrors (f a) (f' a') n n' T) : Mirrors (x >>= f) (y >>= f') m m' T :=
  (Mirrors.of_eq (Q := fun b b' k k' => (b = a ∧ b' = a') ∧ k = n ∧ k' = n') hx hx'
    ⟨⟨rfl, rfl⟩, rfl, rfl⟩).bind fun _ _ _ _ ⟨⟨ha, ha'⟩, hn, hn'⟩ => ha ▸ ha' ▸ hn ▸ hn' ▸ h

theorem Mirrors.bind_raise {e : RuntimeError} :
    Mirrors (Exec.raise e >>= f) (Exec.raise e >>= f') m m' T :=
  (rfl : e = e)

/-- Looking at the heaps. -/
theorem Mirrors.bind_heap {g g' : Heap → Exec β} (h : Mirrors (g m.heap) (g' m'.heap) m m' T) :
    Mirrors (heap >>= g) (heap >>= g') m m' T :=
  bind_of_eq (x := heap) (y := heap) rfl rfl h

/-- Looking at the whole machines. -/
theorem Mirrors.bind_get {g g' : Machine → Exec β} (h : Mirrors (g m) (g' m') m m' T) :
    Mirrors (get >>= g) (get >>= g') m m' T :=
  bind_of_eq (x := get) (y := get) rfl rfl h

/-- An operator with the same outcome. -/
theorem Mirrors.ofOperator {r : Except ValueError α} (h : ∀ a, r = .ok a → Q a a m m') :
    Mirrors (ofOperator r) (ofOperator r) m m' Q := by
  cases r with
  | error e => exact Mirrors.raise
  | ok a => exact h a rfl

end

end Exec

namespace Machine.InStep

variable {P : Pairing} {n k : Nat} {m m' : Machine} {v v' : Value}

theorem mono (h : m.InStep P n m') (hle : k ≤ n) : m.InStep P k m' :=
  { h with room := Nat.lt_of_le_of_lt hle h.room }

theorem size_stack (h : m.InStep P n m') : m.stack.size = m'.stack.size := by
  rw [Machine.size_stack, Machine.size_stack, h.values.length_eq]

theorem size_frames (h : m.InStep P n m') : m.frames.size = m'.frames.size := by
  rw [← Stack.length_down, ← Stack.length_down]
  exact h.calls.length_eq

/-- Objects are created or changed alike. -/
theorem withHeap (h : m.InStep P n m') {heap heap' : Heap} (hheap : heap.Renamed P.toRenaming heap')
    (hcells : m.heap.cells.size ≤ heap.cells.size)
    (hmain : heap.closures[P.main.index]? = some ⟨P.script, #[]⟩)
    (hmain' : heap'.closures[P.main'.index]? = some ⟨P.script', #[]⟩) :
    ({ m with heap } : Machine).InStep P n { m' with heap := heap' } :=
  { h with
    heap := hheap
    known := fun id hid => Nat.lt_of_lt_of_le (h.known id hid) hcells
    main := hmain
    main' := hmain' }

/-- Other values are on the stacks. -/
theorem withStack (h : m.InStep P n m') {stack stack' : Stack Value stackLimit}
    (hvalues : OnBottom (Value.Renamed P.toRenaming) (fun _ _ => True) stack.down stack'.down)
    (hroom : k < stack.down.length) :
    ({ m with stack } : Machine).InStep P k { m' with stack := stack' } :=
  { h with
    values := hvalues
    room := hroom }

/-- A global variable gets a value. -/
theorem withGlobal (h : m.InStep P n m') (name : String) (hv : v.Renamed P.toRenaming v') :
    ({ m with globals := m.globals.insert name v } : Machine).InStep P n
      { m' with globals := m'.globals.insert name v' } :=
  { h with globals := h.globals.insert name hv }

theorem write (h : m.InStep P n m') (text : String) :
    ({ m with sink := m.sink.write text } : Machine).InStep P n
      { m' with sink := m'.sink.write text } :=
  { h with sink := congrArg (·.write text) h.sink }

end Machine.InStep

namespace Exec

variable {P : Pairing} {n : Nat} {m m' : Machine} {v v' : Value}

/-! ## The stack of values -/

/-- Both machines push corresponding values, or have no room for them. -/
theorem push_mirrors (h : m.InStep P n m') (hv : v.Renamed P.toRenaming v') :
    Mirrors (push v) (push v') m m' fun _ _ k k' => k.InStep P (n + 1) k' := by
  unfold Mirrors push
  by_cases hroom : m.stack.size < stackLimit
  · have hroom' : m'.stack.size < stackLimit := h.size_stack ▸ hroom
    rw [dif_pos hroom, dif_pos hroom']
    refine h.withStack ?_ ?_
    · rw [Stack.down_pushOf, Stack.down_pushOf]
      exact .above hv h.values
    · rw [Stack.down_pushOf]
      exact Nat.succ_lt_succ h.room
  · have hroom' : ¬m'.stack.size < stackLimit := h.size_stack ▸ hroom
    rw [dif_neg hroom, dif_neg hroom']
    exact (rfl : RuntimeError.stackOverflow = .stackOverflow)

/-- Both machines pop corresponding values. -/
theorem pop_mirrors (h : m.InStep P (n + 1) m') :
    Mirrors pop pop m m' fun v v' k k' => v.Renamed P.toRenaming v' ∧ k.InStep P n k' := by
  have hroom : n + 1 < m.values.length := h.room
  have hpop : ∀ {m : Machine} {v : Value} {values : List Value}, m.values = v :: values →
      pop m = .ok v { m with stack := m.stack.dropTop } ∧ m.stack.dropTop.down = values := by
    intro m v values hvalues
    have htop : m.stack.top? = some v := by
      rw [Stack.top?_eq_head?]
      exact congrArg List.head? hvalues
    refine ⟨by rw [pop, htop], ?_⟩
    rw [Stack.down_dropTop, show m.stack.down = v :: values from hvalues]
    rfl
  generalize hvalues : m.values = values at hroom
  generalize hvalues' : m'.values = values'
  have hrelated := h.values
  rw [hvalues, hvalues'] at hrelated
  cases hrelated with
  | bottom _ => exact absurd hroom (by simp)
  | above hv hrest =>
    obtain ⟨heq, hdown⟩ := hpop hvalues
    obtain ⟨heq', hdown'⟩ := hpop hvalues'
    refine .of_eq heq heq' ⟨hv, h.withStack ?_ ?_⟩
    · rw [hdown, hdown']
      exact hrest
    · rw [hdown]
      exact Nat.lt_of_succ_lt_succ hroom

/-- Both machines pop corresponding values, as many as one likes above the lowest one. -/
theorem popMany_mirrors {count : Nat} (h : m.InStep P (n + count) m') :
    Mirrors (popMany count) (popMany count) m m' fun vs vs' k k' =>
      List.Forall₂ (Value.Renamed P.toRenaming) vs vs' ∧ k.InStep P n k' := by
  have hroom := h.room
  obtain ⟨xs, ys, cs, ds, hvalues, hvalues', hlength, hx, hrest⟩ :=
    h.values.exists_append (n := count) (by omega)
  have hpop : ∀ {m : Machine} {xs cs : List Value}, m.values = xs ++ cs → xs.length = count →
      popMany count m = .ok xs.reverse { m with stack := m.stack.truncate (m.stack.size - count) } ∧
        (m.stack.truncate (m.stack.size - count)).down = cs := by
    intro m xs cs hvalues hlength
    have hsize : m.stack.size = count + cs.length := by
      rw [Machine.size_stack, hvalues, List.length_append, hlength]
    refine ⟨?_, Stack.down_truncate hvalues (by omega)⟩
    rw [popMany, if_pos (by omega), Stack.topItems_eq hvalues hlength.symm]
  obtain ⟨heq, hdown⟩ := hpop hvalues hlength
  obtain ⟨heq', hdown'⟩ := hpop hvalues' (hx.length_eq.symm.trans hlength)
  refine .of_eq heq heq' ⟨List.rel_reverse hx, h.withStack ?_ ?_⟩
  · rw [hdown, hdown']
    exact hrest
  · rw [hdown]
    rw [hvalues, List.length_append] at hroom
    omega

/-- Both machines look at corresponding values above the lowest one. -/
theorem peek_mirrors {distance : Nat} (h : m.InStep P n m') (hn : distance < n) :
    Mirrors (peek distance) (peek distance) m m' fun v v' k k' =>
      v.Renamed P.toRenaming v' ∧ k = m ∧ k' = m' := by
  have hroom := h.room
  obtain ⟨v, v', hv, hv', hrenamed⟩ := h.values.getElem? (i := distance) (by omega)
  exact .of_eq (peek_eq hv) (peek_eq hv') ⟨hrenamed, rfl, rfl⟩

/-- Both machines read corresponding values from a slot above the lowest one. -/
theorem getSlot_mirrors {slot : Nat} (h : m.InStep P n m') (hpos : 0 < slot) :
    Mirrors (getSlot slot) (getSlot slot) m m' fun v v' k k' =>
      v.Renamed P.toRenaming v' ∧ k = m ∧ k' = m' := by
  by_cases hlt : slot < m.values.length
  · obtain ⟨xs, a, cs, ys, b, ds, hvalues, hvalues', -, hab, hrest, hlength⟩ :=
      h.values.exists_cut hlt hpos
    refine .of_eq (getSlot_eq ?_) (getSlot_eq ?_) ⟨hab, rfl, rfl⟩
    · rw [hvalues, ← hlength]
      exact slot?_cut xs cs a
    · rw [hvalues', ← hlength, hrest.length_eq]
      exact slot?_cut ys ds b
  · have hnone : m.stack.items[slot]? = none := by
      refine Array.getElem?_eq_none ?_
      rw [← m.size_stack] at hlt
      exact Nat.le_of_not_lt hlt
    have hget : getSlot slot m = .error (.internal .stackUnderflow) m := by
      show (ofStack (m.stack.get slot) : Exec Value) m = _
      rw [Stack.get, hnone]
      rfl
    rw [Mirrors, hget]
    trivial

/-- Both machines have a slot above the lowest one assigned. -/
theorem setSlot_mirrors {slot : Nat} (h : m.InStep P n m') (hpos : 0 < slot)
    (hv : v.Renamed P.toRenaming v') :
    Mirrors (setSlot slot v) (setSlot slot v') m m' fun _ _ k k' => k.InStep P n k' := by
  unfold Mirrors setSlot
  by_cases hlt : slot < m.stack.size
  · have hlt' : slot < m'.stack.size := h.size_stack ▸ hlt
    rw [if_pos hlt, if_pos hlt']
    rw [m.size_stack] at hlt
    obtain ⟨xs, a, cs, ys, b, ds, hvalues, hvalues', hx, -, hrest, hlength⟩ :=
      h.values.exists_cut hlt hpos
    have hdown := Stack.down_replace (y := v) hvalues hlength.symm
    have hdown' := Stack.down_replace (y := v') hvalues' (hlength.symm.trans hrest.length_eq)
    refine h.withStack ?_ ?_
    · rw [hdown, hdown']
      exact .append hx (.above hv hrest)
    · have hroom := h.room
      rw [hvalues] at hroom
      rw [hdown]
      simpa using hroom
  · have hlt' : ¬slot < m'.stack.size := h.size_stack ▸ hlt
    rw [if_neg hlt]
    trivial

/-- The callee has the same slot on both machines. -/
theorem calleeSlot_mirrors {arguments : UInt8} (h : m.InStep P n m') (hn : arguments.toNat < n) :
    Mirrors (calleeSlot arguments) (calleeSlot arguments) m m' fun slot slot' k k' =>
      (slot = slot' ∧ n < slot + arguments.toNat + 1) ∧ k = m ∧ k' = m' := by
  have hroom := h.room
  have hlength := h.values.length_eq
  have hslot : calleeSlot arguments m = .ok (m.values.length - (arguments.toNat + 1)) m :=
    calleeSlot_eq (by omega)
  have hslot' : calleeSlot arguments m' = .ok (m.values.length - (arguments.toNat + 1)) m' :=
    calleeSlot_eq (by omega)
  exact .of_eq hslot hslot' ⟨⟨rfl, by omega⟩, rfl, rfl⟩

/-- Both machines have the callee replaced. -/
theorem setCallee_mirrors {arguments : UInt8} (h : m.InStep P n m') (hn : arguments.toNat < n)
    (hv : v.Renamed P.toRenaming v') :
    Mirrors (setCallee arguments v) (setCallee arguments v') m m' fun _ _ k k' =>
      k.InStep P n k' := by
  refine (calleeSlot_mirrors h hn).bind ?_
  rintro slot _ _ _ ⟨⟨rfl, hroom⟩, rfl, rfl⟩
  exact setSlot_mirrors h (by omega) hv

/-- The value on top is replaced. -/
theorem replaceTop_mirrors (h : m.InStep P (n + 1) m') (hv : v.Renamed P.toRenaming v') :
    Mirrors (replaceTop v) (replaceTop v') m m' fun _ _ k k' => k.InStep P (n + 1) k' :=
  (pop_mirrors h).bind fun _ _ _ _ hpop => push_mirrors hpop.2 hv

/-! ## Starting calls -/

/-- Both machines have as many calls. -/
theorem nesting_eq (h : m.InStep P n m') : m.nesting = m'.nesting := by
  rw [Machine.nesting_eq_countP, Machine.nesting_eq_countP]
  have hcalls := h.calls
  generalize m.calls = calls at hcalls
  generalize m'.calls = calls' at hcalls
  induction hcalls with
  | bottom hf => simp [hf.resume, hf.resume']
  | above hf _ ih => rw [List.countP_cons, List.countP_cons, ih, hf.resume.isNested_eq]

/-- Both machines make corresponding calls, or have no room for them. -/
theorem pushFrame_mirrors {f f' : Frame} (h : m.InStep P n m') (hf : f.Renamed P.toRenaming f') :
    Mirrors (pushFrame f) (pushFrame f') m m' fun _ _ k k' => k.InStep P n k' := by
  unfold Mirrors pushFrame
  by_cases hroom : m.frames.size < frameLimit
  · have hroom' : m'.frames.size < frameLimit := h.size_frames ▸ hroom
    rw [dif_pos hroom, dif_pos hroom']
    refine { h with calls := ?_ }
    show OnBottom _ _ (m.frames.pushOf f hroom).down (m'.frames.pushOf f' hroom').down
    rw [Stack.down_pushOf, Stack.down_pushOf]
    exact .above hf h.calls
  · have hroom' : ¬m'.frames.size < frameLimit := h.size_frames ▸ hroom
    rw [dif_neg hroom, dif_neg hroom']
    exact (rfl : RuntimeError.stackOverflow = .stackOverflow)

variable {c c' : ClosureId} {r r' : Resume} {arguments : UInt8}

/-- A call starts with the arguments on the stack, above what is taken together with its result. -/
theorem enter_mirrors (h : m.InStep P n m') (hc : P.closure c c')
    (hr : r.Renamed P.toRenaming r') (hn : arguments.toNat + r.waiting < n) :
    Mirrors (enter c arguments r) (enter c' arguments r') m m' fun _ _ k k' => k.InStep P 0 k' := by
  refine Mirrors.bind_heap ?_
  have hfunction := h.heap.functionOf hc
  dsimp only
  rw [hfunction.arity]
  split
  · exact Mirrors.bind_raise
  · refine (calleeSlot_mirrors h (by omega)).bind ?_
    rintro slot _ _ _ ⟨⟨rfl, hroom⟩, rfl, rfl⟩
    have hframe : Frame.Renamed P.toRenaming ⟨c, 0, slot, r⟩ ⟨c', 0, slot, r'⟩ :=
      ⟨hc, rfl, rfl, hr, show r.waiting < slot by omega⟩
    exact (pushFrame_mirrors h hframe).imp fun _ _ _ _ hk => hk.mono (Nat.zero_le _)

/-- Both machines evaluate corresponding closures. -/
theorem evaluate_mirrors (h : m.InStep P n m') (hc : P.closure c c')
    (hv : v.Renamed P.toRenaming v') (hr : r.Renamed P.toRenaming r') (hn : r.waiting ≤ n) :
    Mirrors (evaluate c v r) (evaluate c' v' r') m m' fun _ _ k k' => k.InStep P 0 k' := by
  refine Mirrors.bind_get ?_
  dsimp only
  rw [nesting_eq h]
  split
  · exact Mirrors.bind_raise
  · refine (push_mirrors h hv).bind fun _ _ _ _ hk => enter_mirrors hk hc hr ?_
    rw [show (0 : UInt8).toNat = 0 from rfl]
    omega

/-! ## Descriptions -/

end Exec

namespace Value

variable {ρ : Renaming}

mutual

/-- The descriptions of renamed values have the same pieces. -/
theorem pieces_renamed : ∀ {v v' : Value}, v.Renamed ρ v' →
    List.Forall₂ (Piece.Renamed ρ) v.pieces v'.pieces
  | .array vs, _, hv => by
    obtain ⟨vs', rfl, hvs⟩ := hv.of_array
    rw [Value.pieces, Value.pieces]
    refine List.rel_append (.cons (.text _) ?_) (.cons (.text _) .nil)
    exact forall₂_intercalate (.cons (.text _) .nil) (piecesOfEach_renamed hvs)
  | .nil, _, hv | .bool _, _, hv | .int _, _, hv | .number _, _, hv | .string _, _, hv
  | .functionRef _, _, hv | .closureRef _, _, hv | .classRef _, _, hv | .instanceRef _, _, hv
  | .bound _ _, _, hv | .native _, _, hv => by
    have hleaf : Piece.Renamed ρ (.leaf _) (.leaf _) := .leaf hv
    cases hv <;> exact .cons hleaf .nil

/-- The descriptions of lists of renamed values have the same pieces. -/
theorem piecesOfEach_renamed : ∀ {vs vs' : List Value}, List.Forall₂ (Value.Renamed ρ) vs vs' →
    List.Forall₂ (List.Forall₂ (Piece.Renamed ρ)) (piecesOfEach vs) (piecesOfEach vs')
  | [], _, .nil => .nil
  | _ :: _, _, .cons hv hvs => by
    rw [piecesOfEach, piecesOfEach]
    exact .cons (pieces_renamed hv) (piecesOfEach_renamed hvs)

end

end Value

/-- Two descriptions of values that are no arrays, which are the same. -/
inductive LeafText.Renamed (ρ : Renaming) : LeafText → LeafText → Prop
  | known (text : String) : Renamed ρ (.known text) (.known text)
  | computed {c c' : ClosureId} (h : ρ.closure c c') : Renamed ρ (.computed c) (.computed c')

/-- Renamed values describe themselves alike. -/
theorem Heap.Renamed.leafText {ρ : Renaming} {h h' : Heap} (hh : h.Renamed ρ h') {v v' : Value}
    (hv : v.Renamed ρ v') : (h.leafText v).Renamed ρ (h'.leafText v') := by
  have hknown : ∀ {text text' : String}, text = text' →
      LeafText.Renamed ρ (.known text) (.known text') := fun heq => heq ▸ .known _
  have hdisplay := hknown (hh.display_eq hv)
  cases hv with
  | @fixed v hfixed =>
    cases v with
    | instanceRef id =>
      unfold Heap.leafText
      dsimp only
      rcases (hh.instanceAt id).fields.cases "description" with ⟨hf, hf'⟩ | ⟨v, v', hf, hf', hv⟩
      · rw [Heap.field?, Heap.field?, hf, hf']
        dsimp only
        rcases (hh.classOf id).properties.cases "description" with
          ⟨hp, hp'⟩ | ⟨c, c', hp, hp', hc⟩
        · rw [hp, hp']
          exact hdisplay
        · rw [hp, hp']
          exact .computed hc
      · rw [Heap.field?, Heap.field?, hf, hf']
        exact hknown (hh.display_eq hv)
    | _ => exact hdisplay
  | _ => exact hdisplay

namespace Exec

variable {P : Pairing} {n : Nat} {m m' : Machine} {v v' : Value} {c c' : ClosureId}
  {r r' : Resume} {arguments : UInt8}

theorem write_mirrors (h : m.InStep P n m') (text : String) :
    Mirrors (write text) (write text) m m' fun _ _ k k' => k.InStep P n k' :=
  .of_eq rfl rfl (h.write text)

/-- Both machines give a description to the same purpose. -/
theorem deliver_mirrors (h : m.InStep P n m') (purpose : Purpose) (text : String) :
    Mirrors (deliver purpose text) (deliver purpose text) m m' fun _ _ k k' => k.InStep P 0 k' := by
  have hpush : ∀ {k k' : Machine} {w : Value}, k.InStep P n k' → w.isFixed = true →
      Mirrors (push w) (push w) k k' fun _ _ k k' => k.InStep P 0 k' := fun hk hw =>
    (push_mirrors hk (.fixed hw)).imp fun _ _ _ _ hk => hk.mono (Nat.zero_le _)
  cases purpose with
  | print =>
    exact (write_mirrors h _).bind fun _ _ _ _ hk => Mirrors.pure (hk.mono (Nat.zero_le _))
  | write => exact (write_mirrors h _).bind fun _ _ _ _ hk => hpush hk rfl
  | text => exact hpush h rfl

/-- **Both machines put the same description together**, or wait for the same instance. -/
theorem describe_mirrors (purpose : Purpose) (done : String) {pieces pieces' : List Piece}
    (h : m.InStep P n m') (hpieces : List.Forall₂ (Piece.Renamed P.toRenaming) pieces pieces') :
    Mirrors (describe purpose done pieces) (describe purpose done pieces') m m'
      fun _ _ k k' => k.InStep P 0 k' := by
  induction hpieces generalizing done with
  | nil => exact deliver_mirrors h purpose done
  | cons hpiece hrest ih =>
    cases hpiece with
    | text s => exact ih (done ++ s)
    | leaf hv =>
      refine Mirrors.bind_heap ?_
      have hleaf := h.heap.leafText hv
      revert hleaf
      generalize m.heap.leafText _ = leaf
      generalize m'.heap.leafText _ = leaf'
      intro hleaf
      cases hleaf with
      | known text => exact ih (done ++ text)
      | computed hc =>
        exact evaluate_mirrors h hc hv (.description purpose done hrest) (Nat.zero_le _)

/-! ## Calling values -/

end Exec

/-- Two results of native functions that are the same. -/
inductive Native.Effect.Renamed (ρ : Renaming) : Native.Effect → Native.Effect → Prop
  | result {v v' : Value} (h : v.Renamed ρ v') : Renamed ρ (.result v) (.result v')
  | describe {v v' : Value} (h : v.Renamed ρ v') (purpose : Purpose) :
      Renamed ρ (.describe v purpose) (.describe v' purpose)

/-- The first of corresponding values correspond, and so do the values in place of them if there are
none. -/
theorem Value.headD_renamed {ρ : Renaming} {vs vs' : List Value}
    (h : List.Forall₂ (Value.Renamed ρ) vs vs') : (vs.headD .nil).Renamed ρ (vs'.headD .nil) := by
  cases h with
  | nil => exact .fixed rfl
  | cons hv _ => exact hv

/-- A native function fails alike on renamed arguments, or does the same. -/
theorem Native.effect_cases {ρ : Renaming} {vs vs' : List Value} (function : Native) (now : Float)
    (h : List.Forall₂ (Value.Renamed ρ) vs vs') :
    (∃ e, function.effect now vs = .error e ∧ function.effect now vs' = .error e) ∨
      ∃ effect effect', function.effect now vs = .ok effect ∧
        function.effect now vs' = .ok effect' ∧ effect.Renamed ρ effect' := by
  have hfirst := Value.headD_renamed h
  cases function with
  | clock => exact .inr ⟨_, _, rfl, rfl, .result (.fixed rfl)⟩
  | write => exact .inr ⟨_, _, rfl, rfl, .describe hfirst .write⟩
  | describe => exact .inr ⟨_, _, rfl, rfl, .describe hfirst .text⟩
  | append =>
    have hrest : List.Forall₂ (Value.Renamed ρ) vs.tail vs'.tail := by
      cases h with
      | nil => exact .nil
      | cons _ hvs => exact hvs
    have hsecond := Value.headD_renamed hrest
    show (∃ e, appended _ _ = .error e ∧ appended _ _ = .error e) ∨ ∃ effect effect',
      appended _ _ = .ok effect ∧ appended _ _ = .ok effect' ∧ effect.Renamed ρ effect'
    revert hfirst
    generalize vs.headD .nil = array
    generalize vs'.headD .nil = array'
    intro hfirst
    have hkind := hfirst.kind_eq
    cases hfirst with
    | fixed hfixed =>
      cases array with
      | array _ => cases hfixed
      | _ => exact .inl ⟨_, rfl, rfl⟩
    | array hlength helements =>
      refine .inr ⟨_, _, rfl, rfl, .result (Value.Renamed.array_iff.2 (List.rel_append ?_ ?_))⟩
      · exact Value.Renamed.array_iff.1 (.array hlength helements)
      · exact .cons hsecond .nil
    | _ => exact .inl ⟨_, rfl, rfl⟩

/-- Corresponding arrays have corresponding elements. -/
theorem Exec.elementAt_renamed {ρ : Renaming} {vs vs' : List Value}
    (h : List.Forall₂ (Value.Renamed ρ) vs vs') (index : Int) :
    (elementAt vs index).Renamed ρ (elementAt vs' index) := by
  have hnil : Value.nil.Renamed ρ .nil := .fixed rfl
  unfold elementAt
  split
  · exact hnil
  · rw [List.getD_eq_getElem?_getD, List.getD_eq_getElem?_getD]
    by_cases hlt : index.toNat < vs.length
    · have hlt' : index.toNat < vs'.length := h.length_eq ▸ hlt
      rw [List.getElem?_eq_getElem hlt, List.getElem?_eq_getElem hlt']
      exact h.get hlt hlt'
    · have hlt' : ¬index.toNat < vs'.length := h.length_eq ▸ hlt
      rw [List.getElem?_eq_none (Nat.le_of_not_lt hlt),
        List.getElem?_eq_none (Nat.le_of_not_lt hlt')]
      exact hnil

namespace Exec

variable {P : Pairing} {n : Nat} {m m' : Machine} {v v' : Value} {c c' : ClosureId}
  {r r' : Resume} {arguments : UInt8}

/-- Both machines call the same native function, with the same outcome. -/
theorem callNative_mirrors (function : Native) (h : m.InStep P n m') (hn : arguments.toNat < n) :
    Mirrors (callNative function arguments) (callNative function arguments) m m'
      fun _ _ k k' => k.InStep P 0 k' := by
  unfold callNative
  dsimp only
  split
  · exact Mirrors.bind_raise
  · refine (popMany_mirrors (n := 1) (h.mono (by omega))).bind ?_
    rintro vs vs' k k' ⟨hvs, hk⟩
    refine (pop_mirrors hk).bind ?_
    rintro _ _ k k' ⟨-, hk⟩
    refine Mirrors.bind_get ?_
    rw [hk.now]
    rcases function.effect_cases k'.now hvs with ⟨e, he, he'⟩ | ⟨effect, effect', he, he', heffect⟩
    · rw [he, he']
      exact Mirrors.raise
    · rw [he, he']
      cases heffect with
      | result hv => exact (push_mirrors hk hv).imp fun _ _ _ _ hk => hk.mono (Nat.zero_le _)
      | describe hv purpose => exact describe_mirrors purpose "" hk (Value.pieces_renamed hv)

/-- Both machines call corresponding arrays for an element. -/
theorem callArray_mirrors {vs vs' : List Value} (h : m.InStep P n m') (hn : arguments.toNat < n)
    (hvs : List.Forall₂ (Value.Renamed P.toRenaming) vs vs') :
    Mirrors (callArray vs arguments) (callArray vs' arguments) m m'
      fun _ _ k k' => k.InStep P 0 k' := by
  unfold callArray
  dsimp only
  split
  · exact Mirrors.bind_raise
  · next hone =>
    obtain rfl : arguments = 1 := not_not.1 hone
    have hn : 1 < n := hn
    refine (pop_mirrors (n := 1) (h.mono hn)).bind ?_
    rintro index index' k k' ⟨hindex, hk⟩
    refine (pop_mirrors hk).bind ?_
    rintro _ _ k k' ⟨-, hk⟩
    have hkind := hindex.kind_eq
    have hraise : ∀ {x y : Exec Unit}, x = raise (.invalidIndex index.kind) →
        y = raise (.invalidIndex index'.kind) →
        Mirrors x y k k' fun _ _ k k' => k.InStep P 0 k' := by
      rintro _ _ rfl rfl
      rw [hkind]
      exact Mirrors.raise
    cases hindex with
    | fixed hfixed =>
      cases index with
      | int i =>
        exact (push_mirrors hk (elementAt_renamed hvs i.toInt)).imp fun _ _ _ _ hk =>
          hk.mono (Nat.zero_le _)
      | _ => exact hraise rfl rfl
    | _ => exact hraise rfl rfl

/-- Both machines call the same class. -/
theorem callClass_mirrors (id : ClassId) (h : m.InStep P n m') (hn : arguments.toNat < n) :
    Mirrors (callClass id arguments) (callClass id arguments) m m'
      fun _ _ k k' => k.InStep P 0 k' := by
  have hinstances : m.heap.instances.size = m'.heap.instances.size := by
    simpa using h.heap.instances.length_eq
  have hmade := h.withHeap (h.heap.newInstance id) (Nat.le_refl _) h.main h.main'
  have hallocate : Mirrors (allocate (·.newInstance id)) (allocate (·.newInstance id)) m m'
      fun i i' k k' => i = i' ∧ k.InStep P n k' :=
    .of_eq rfl rfl ⟨congrArg InstanceId.mk hinstances, hmade⟩
  refine hallocate.bind ?_
  rintro i _ k k' ⟨rfl, hk⟩
  refine (setCallee_mirrors hk hn (.fixed rfl)).bind ?_
  rintro _ _ k k' hk
  refine Mirrors.bind_heap ?_
  rcases (hk.heap.classAt id).methods.cases "init" with ⟨hnone, hnone'⟩ | ⟨c, c', hc, hc', hrel⟩
  · rw [hnone, hnone']
    dsimp only
    split
    · exact Mirrors.raise
    · exact Mirrors.pure (hk.mono (Nat.zero_le _))
  · rw [hc, hc']
    exact enter_mirrors hk hrel .caller hn

/-- **Both machines call corresponding values**, whatever these are. -/
theorem callValue_mirrors (h : m.InStep P n m') (hn : arguments.toNat < n)
    (hv : v.Renamed P.toRenaming v') :
    Mirrors (callValue v arguments) (callValue v' arguments) m m'
      fun _ _ k k' => k.InStep P 0 k' := by
  cases hv with
  | @fixed v hfixed =>
    cases v with
    | classRef id => exact callClass_mirrors id h hn
    | native function => exact callNative_mirrors function h hn
    | instanceRef id =>
      refine Mirrors.bind_heap ?_
      rcases (h.heap.classOf id).methods.cases "subscript" with
        ⟨hnone, hnone'⟩ | ⟨c, c', hc, hc', hrel⟩
      · rw [hnone, hnone']
        exact Mirrors.raise
      · rw [hc, hc']
        exact enter_mirrors h hrel .caller hn
    | array _ | functionRef _ | closureRef _ | bound _ _ => cases hfixed
    | _ => exact Mirrors.raise
  | array hlength helements =>
    exact callArray_mirrors h hn (Value.Renamed.array_iff.1 (.array hlength helements))
  | functionRef _ => exact Mirrors.raise
  | closureRef hc => exact enter_mirrors h hc .caller hn
  | bound hc =>
    refine (setCallee_mirrors h hn (.fixed rfl)).bind fun _ _ _ _ hk => ?_
    exact enter_mirrors hk hc .caller hn

/-! ## Properties -/

/-- Both machines call the same method of a class. -/
theorem invokeFrom_mirrors (id : ClassId) (name : String) (h : m.InStep P n m')
    (hn : arguments.toNat < n) :
    Mirrors (invokeFrom id name arguments) (invokeFrom id name arguments) m m'
      fun _ _ k k' => k.InStep P 0 k' := by
  refine Mirrors.bind_heap ?_
  rcases (h.heap.classAt id).methods.cases name with ⟨hnone, hnone'⟩ | ⟨c, c', hc, hc', hrel⟩
  · rw [hnone, hnone']
    exact Mirrors.raise
  · rw [hc, hc']
    exact enter_mirrors h hrel .caller hn

/-- Both machines call corresponding values in place of the receiver. -/
theorem callInstead_mirrors (h : m.InStep P n m') (hn : arguments.toNat < n)
    (hv : v.Renamed P.toRenaming v') :
    Mirrors (callInstead v arguments) (callInstead v' arguments) m m'
      fun _ _ k k' => k.InStep P 0 k' :=
  (setCallee_mirrors h hn hv).bind fun _ _ _ _ hk => callValue_mirrors hk hn hv

/-- Both machines call the same property of the value below the arguments. -/
theorem invoke_mirrors (name : String) (h : m.InStep P n m') (hn : arguments.toNat < n) :
    Mirrors (invoke name arguments) (invoke name arguments) m m'
      fun _ _ k k' => k.InStep P 0 k' := by
  refine (peek_mirrors h hn).bind ?_
  rintro v v' _ _ ⟨hv, rfl, rfl⟩
  cases hv with
  | @fixed v hfixed =>
    cases v with
    | instanceRef id =>
      refine Mirrors.bind_heap ?_
      rcases (h.heap.instanceAt id).fields.cases name with ⟨hnone, hnone'⟩ | ⟨w, w', hw, hw', hrel⟩
      · rw [Heap.field?, Heap.field?, hnone, hnone']
        dsimp only
        rcases (h.heap.classOf id).properties.cases name with
          ⟨hnone, hnone'⟩ | ⟨c, c', hc, hc', hrel⟩
        · rw [hnone, hnone', (h.heap.instanceAt id).classId]
          exact invokeFrom_mirrors _ name h hn
        · rw [hc, hc']
          exact evaluate_mirrors h hrel (.fixed rfl) (.invocation arguments) hn
      · rw [Heap.field?, Heap.field?, hw, hw']
        exact callInstead_mirrors h hn hrel
    | _ => exact Mirrors.raise
  | _ => exact Mirrors.raise

/-- Both machines read the same property of an instance. -/
theorem readProperty_mirrors (id : InstanceId) (name : String) (h : m.InStep P (n + 1) m') :
    Mirrors (readProperty id name) (readProperty id name) m m'
      fun _ _ k k' => k.InStep P 0 k' := by
  have hreplace : ∀ {w w' : Value}, w.Renamed P.toRenaming w' →
      Mirrors (replaceTop w) (replaceTop w') m m' fun _ _ k k' => k.InStep P 0 k' := fun hw =>
    (replaceTop_mirrors h hw).imp fun _ _ _ _ hk => hk.mono (Nat.zero_le _)
  refine Mirrors.bind_heap ?_
  rcases (h.heap.instanceAt id).fields.cases name with ⟨hnone, hnone'⟩ | ⟨w, w', hw, hw', hrel⟩
  · rw [Heap.field?, Heap.field?, hnone, hnone']
    dsimp only
    rcases (h.heap.classOf id).properties.cases name with ⟨hnone, hnone'⟩ | ⟨c, c', hc, hc', hrel⟩
    · rw [hnone, hnone']
      dsimp only
      rcases (h.heap.classOf id).methods.cases name with ⟨hnone, hnone'⟩ | ⟨c, c', hc, hc', hrel⟩
      · rw [hnone, hnone']
        exact Mirrors.raise
      · rw [hc, hc']
        exact hreplace (.bound hrel)
    · rw [hc, hc']
      exact evaluate_mirrors h hrel (.fixed rfl) .property (Nat.le_add_left _ _)
  · rw [Heap.field?, Heap.field?, hw, hw']
    exact hreplace hrel

/-- Both machines read the same property of an instance through a superclass. -/
theorem readSuperProperty_mirrors (superclass : ClassId) (receiver : InstanceId) (name : String)
    (h : m.InStep P n m') :
    Mirrors (readSuperProperty superclass receiver name)
      (readSuperProperty superclass receiver name)
      m m' fun _ _ k k' => k.InStep P 0 k' := by
  refine Mirrors.bind_heap ?_
  dsimp only
  rcases (h.heap.classAt superclass).properties.cases name with
    ⟨hnone, hnone'⟩ | ⟨c, c', hc, hc', hrel⟩
  · rw [hnone, hnone']
    dsimp only
    rcases (h.heap.classAt superclass).methods.cases name with
      ⟨hnone, hnone'⟩ | ⟨c, c', hc, hc', hrel⟩
    · rw [hnone, hnone']
      exact Mirrors.raise
    · rw [hc, hc']
      exact (push_mirrors h (.bound hrel)).imp fun _ _ _ _ hk => hk.mono (Nat.zero_le _)
  · rw [hc, hc']
    exact evaluate_mirrors h hrel (.fixed rfl) .superProperty (Nat.zero_le _)

/-! ## Captured variables -/

end Exec

/-- Values in a slot above the lowest one are the same; both read as `nil` where there is no
slot. -/
theorem Machine.InStep.getD_slot {P : Pairing} {n : Nat} {m m' : Machine} (h : m.InStep P n m')
    {slot : Nat} (hpos : 0 < slot) :
    (m.stack.items.getD slot .nil).Renamed P.toRenaming (m'.stack.items.getD slot .nil) := by
  have hnil : Value.nil.Renamed P.toRenaming .nil := .fixed rfl
  rw [Array.getD_eq_getD_getElem?, Array.getD_eq_getD_getElem?]
  by_cases hlt : slot < m.values.length
  · obtain ⟨xs, a, cs, ys, b, ds, hvalues, hvalues', -, hab, hrest, hlength⟩ :=
      h.values.exists_cut hlt hpos
    have hget : m.stack.items[slot]? = some a := by
      rw [← Stack.slot?_down, show m.stack.down = xs ++ a :: cs from hvalues, ← hlength]
      exact slot?_cut xs cs a
    have hget' : m'.stack.items[slot]? = some b := by
      rw [← Stack.slot?_down, show m'.stack.down = ys ++ b :: ds from hvalues', ← hlength,
        hrest.length_eq]
      exact slot?_cut ys ds b
    rw [hget, hget']
    exact hab
  · have hsize : ¬slot < m.stack.size := m.size_stack ▸ hlt
    have hsize' : ¬slot < m'.stack.size := h.size_stack ▸ hsize
    rw [Array.getElem?_eq_none (Nat.le_of_not_lt hsize),
      Array.getElem?_eq_none (Nat.le_of_not_lt hsize')]
    exact hnil

/-- Closing a cell leaves the number of cells. -/
theorem Machine.size_cells_closeCell (stack : Stack Value stackLimit) (heap : Heap) (id : CellId) :
    (closeCell stack heap id).cells.size = heap.cells.size := by
  unfold closeCell
  split
  · simp [Heap.setCell]
  · rfl

/-- Closing cells leaves their number. -/
theorem Machine.size_cells_closeAll (stack : Stack Value stackLimit) (heap : Heap)
    (ids : List CellId) : (ids.foldl (closeCell stack) heap).cells.size = heap.cells.size := by
  induction ids generalizing heap with
  | nil => rfl
  | cons id rest ih => rw [List.foldl_cons, ih, size_cells_closeCell]

namespace Heap.Renamed

variable {ρ : Renaming} {h h' : Heap} {stack stack' : Stack Value stackLimit}

/-- Whether a cell is open, and where, is the same. -/
theorem slot?_cell (hh : h.Renamed ρ h') {id : CellId} (hid : id.index < h.cells.size) :
    (h.cell id).slot? = (h'.cell id).slot? := by
  have hcell := hh.cell hid
  generalize h.cell id = c at hcell
  generalize h'.cell id = c' at hcell
  cases hcell <;> rfl

/-- A cell is closed. -/
theorem closeCell (hh : h.Renamed ρ h') {id : CellId} (hid : id.index < h.cells.size)
    (hvalues : ∀ slot, 0 < slot →
      (stack.items.getD slot .nil).Renamed ρ (stack'.items.getD slot .nil)) :
    (Machine.closeCell stack h id).Renamed ρ (Machine.closeCell stack' h' id) := by
  have hcell := hh.cell hid
  generalize hc : h.cell id = c at hcell
  generalize hc' : h'.cell id = c' at hcell
  cases hcell with
  | openAt hpos =>
    rw [Machine.closeCell_of_open hc, Machine.closeCell_of_open hc']
    exact hh.setCell id (.closed (hvalues _ hpos))
  | closed _ =>
    rw [Machine.closeCell_of_closed hc, Machine.closeCell_of_closed hc']
    exact hh

/-- Objects still correspond when the same cells are closed with corresponding values. -/
theorem closeAll (hh : h.Renamed ρ h') {ids : List CellId}
    (hids : ∀ id ∈ ids, CellId.index id < h.cells.size)
    (hvalues : ∀ slot, 0 < slot →
      (stack.items.getD slot .nil).Renamed ρ (stack'.items.getD slot .nil)) :
    (ids.foldl (Machine.closeCell stack) h).Renamed ρ
      (ids.foldl (Machine.closeCell stack') h') := by
  induction ids generalizing h h' with
  | nil => exact hh
  | cons id rest ih =>
    refine ih (hh.closeCell (hids id List.mem_cons_self) hvalues) fun id' hid' => ?_
    rw [Machine.size_cells_closeCell]
    exact hids id' (List.mem_cons_of_mem id hid')

end Heap.Renamed

namespace Machine.InStep

variable {P : Pairing} {n : Nat} {m m' : Machine}

/-- The cells of the slots above a bottom are closed. -/
theorem closeCells (h : m.InStep P n m') (bottom : Nat) :
    (m.closeCells bottom).InStep P n (m'.closeCells bottom) := by
  -- Both machines close the same cells, as cells stand for the same slots on both.
  have hopens : ∀ id ∈ m.openCells, m.opensAbove bottom id = m'.opensAbove bottom id :=
    fun id hid => congrArg (fun slot? => slot?.any (bottom ≤ ·))
      (h.heap.slot?_cell (h.known id hid))
  have hclosing : m.closing bottom = m'.closing bottom := by
    rw [Machine.closing, Machine.closing, ← h.openCells, List.partition_eq_filter_filter,
      List.partition_eq_filter_filter]
    exact List.filter_congr hopens
  have hstaying : (m.closeCells bottom).openCells = (m'.closeCells bottom).openCells := by
    show (m.openCells.partition _).2 = (m'.openCells.partition _).2
    rw [← h.openCells, List.partition_eq_filter_filter, List.partition_eq_filter_filter]
    exact List.filter_congr fun id hid => congrArg (!·) (hopens id hid)
  have hids : ∀ id ∈ m.closing bottom, CellId.index id < m.heap.cells.size := fun id hid =>
    h.known id (Machine.mem_closing.1 hid).1
  have hheap : (m.closeCells bottom).heap.Renamed P.toRenaming (m'.closeCells bottom).heap := by
    show Heap.Renamed _ ((m.closing bottom).foldl (Machine.closeCell m.stack) m.heap)
      ((m'.closing bottom).foldl (Machine.closeCell m'.stack) m'.heap)
    rw [← hclosing]
    exact h.heap.closeAll hids fun slot hpos => h.getD_slot hpos
  have hclosures : ∀ m : Machine, (m.closeCells bottom).heap.closures = m.heap.closures := by
    intro m
    have hsame := Heap.withoutCells_closeCells m.stack (m.closing bottom) m.heap
    exact (Heap.mk.inj hsame).2.1
  exact { h with
    heap := hheap
    openCells := hstaying
    known := fun id hid => by
      show id.index
        < ((m.closing bottom).foldl (Machine.closeCell m.stack) m.heap).cells.size
      rw [Machine.size_cells_closeAll]
      exact h.known id (Machine.mem_openCells_closeCells.1 hid).1
    main := by
      rw [hclosures]
      exact h.main
    main' := by
      rw [hclosures]
      exact h.main' }

end Machine.InStep

namespace Exec

variable {P : Pairing} {n : Nat} {m m' : Machine} {v v' : Value} {id : CellId} {slot : Nat}

/-- Both machines capture the same slot in the same cell. -/
theorem captureSlot_mirrors (h : m.InStep P n m') (hpos : 0 < slot) :
    Mirrors (captureSlot slot) (captureSlot slot) m m' fun id id' k k' =>
      (id = id' ∧ id.index < k.heap.cells.size ∧ m.heap.cells.size ≤ k.heap.cells.size) ∧
        m.Captures k ∧ m'.Captures k' ∧ k.InStep P n k' := by
  have hfind : (m.openCells.find? fun id => (m.heap.cell id).slot? = some slot)
      = m'.openCells.find? fun id => (m'.heap.cell id).slot? = some slot := by
    rw [← h.openCells]
    refine List.find?_congr fun id hid => ?_
    rw [h.heap.slot?_cell (h.known id hid)]
  unfold Mirrors captureSlot
  rw [← hfind]
  cases hfound : m.openCells.find? fun id => (m.heap.cell id).slot? = some slot with
  | some id =>
    exact ⟨⟨rfl, h.known id (List.mem_of_find?_eq_some hfound), Nat.le_refl _⟩,
      ⟨rfl, rfl, rfl, rfl, rfl⟩, ⟨rfl, rfl, rfl, rfl, rfl⟩, h⟩
  | none =>
    have hsize : (m.heap.newCell (.openAt slot)).2.cells.size = m.heap.cells.size + 1 :=
      Array.size_push _
    have hid : (⟨m.heap.cells.size⟩ : CellId) = ⟨m'.heap.cells.size⟩ :=
      congrArg CellId.mk h.heap.size_cells
    refine ⟨⟨hid, ?_, ?_⟩, ⟨rfl, rfl, rfl, rfl, rfl⟩, ⟨rfl, rfl, rfl, rfl, rfl⟩, { h with
      heap := h.heap.newCell (.openAt hpos)
      openCells := ?_
      known := ?_ }⟩
    · show m.heap.cells.size < (m.heap.newCell (.openAt slot)).2.cells.size
      omega
    · show m.heap.cells.size ≤ (m.heap.newCell (.openAt slot)).2.cells.size
      omega
    · exact congrArg₂ List.cons hid h.openCells
    · intro id hid
      show id.index < (m.heap.newCell (.openAt slot)).2.cells.size
      rcases List.mem_cons.1 hid with rfl | hid
      · exact hsize ▸ Nat.lt_succ_self _
      · exact hsize ▸ Nat.lt_succ_of_lt (h.known id hid)

/-- Both machines find the same cell among captured variables. -/
theorem capturedCell_mirrors {captures : Array CellId}
    (hcaptures : ∀ id ∈ captures, CellId.index id < m.heap.cells.size) (index : Nat) :
    Mirrors (capturedCell captures index) (capturedCell captures index) m m' fun id id' k k' =>
      (id = id' ∧ id.index < m.heap.cells.size) ∧ k = m ∧ k' = m' := by
  unfold capturedCell
  cases hget : captures[index]? with
  | none => exact Mirrors.defect
  | some id => exact Mirrors.pure ⟨⟨rfl, hcaptures id (Array.mem_of_getElem? hget)⟩, rfl, rfl⟩

/-- Both machines read corresponding values from a cell. -/
theorem getCell_mirrors (h : m.InStep P n m') (hid : id.index < m.heap.cells.size) :
    Mirrors (getCell id) (getCell id) m m' fun v v' k k' =>
      v.Renamed P.toRenaming v' ∧ k = m ∧ k' = m' := by
  refine Mirrors.bind_heap ?_
  have hcell := h.heap.cell hid
  generalize m.heap.cell id = c at hcell
  generalize m'.heap.cell id = c' at hcell
  cases hcell with
  | openAt hpos => exact getSlot_mirrors h hpos
  | closed hv => exact Mirrors.pure ⟨hv, rfl, rfl⟩

/-- Both machines have the same cell assigned. -/
theorem setCell_mirrors (h : m.InStep P n m') (hid : id.index < m.heap.cells.size)
    (hv : v.Renamed P.toRenaming v') :
    Mirrors (setCell id v) (setCell id v') m m' fun _ _ k k' => k.InStep P n k' := by
  refine Mirrors.bind_heap ?_
  have hcell := h.heap.cell hid
  generalize m.heap.cell id = c at hcell
  generalize m'.heap.cell id = c' at hcell
  cases hcell with
  | openAt hpos => exact setSlot_mirrors h hpos hv
  | closed _ =>
    refine .of_eq rfl rfl (h.withHeap (h.heap.setCell id (.closed hv)) ?_ h.main h.main')
    exact Nat.le_of_eq (Array.size_setIfInBounds ..).symm

/-- Both machines close the same captured variable. -/
theorem dropCaptured_mirrors (h : m.InStep P (n + 1) m') :
    Mirrors dropCaptured dropCaptured m m' fun _ _ k k' => k.InStep P n k' := by
  refine Mirrors.bind_get ?_
  rw [h.size_stack]
  refine Mirrors.bind_of_eq (x := closeCells _) (y := closeCells _) rfl rfl ?_
  exact (pop_mirrors (h.closeCells _)).bind fun _ _ _ _ hpop => Mirrors.pure hpop.2

/-! ## Leaving calls -/

/-- What a call was for is completed with its result. -/
theorem resume_mirrors {r r' : Resume} (hr : r.Renamed P.toRenaming r')
    (h : m.InStep P r.waiting m') (hv : v.Renamed P.toRenaming v') :
    Mirrors (resume v r) (resume v' r') m m' fun o o' k k' =>
      (o = none ∧ o' = none) ∧ k.InStep P 0 k' := by
  have hnone : ∀ {x y : Exec Unit},
      Mirrors x y m m' (fun _ _ k k' => k.InStep P 0 k') →
      Mirrors (x >>= fun _ => pure (none : Option Value)) (y >>= fun _ => pure none) m m'
        fun o o' k k' => (o = none ∧ o' = none) ∧ k.InStep P 0 k' := fun hx =>
    hx.bind fun _ _ _ _ hk => Mirrors.pure ⟨⟨rfl, rfl⟩, hk⟩
  have hpush := (push_mirrors h hv).imp fun _ _ _ _ hk => hk.mono (Nat.zero_le _)
  cases hr with
  | caller => exact hnone hpush
  | superProperty => exact hnone hpush
  | property =>
    exact hnone ((replaceTop_mirrors (n := 0) h hv).imp fun _ _ _ _ hk => hk.mono (Nat.zero_le _))
  | invocation arguments => exact hnone (callInstead_mirrors h (Nat.lt_succ_self _) hv)
  | description purpose done hrest =>
    refine Mirrors.bind_heap ?_
    dsimp only
    rw [h.heap.display_eq hv]
    exact hnone (describe_mirrors purpose _ h hrest)

/-- A call that is not the lowest one is left. -/
theorem leave_mirrors {f f' : Frame} {rest rest' : List Frame} (h : m.InStep P (n + 1) m')
    (hcalls : m.calls = f :: rest) (hcalls' : m'.calls = f' :: rest')
    (hf : f.Renamed P.toRenaming f')
    (hrest : OnBottom (Frame.Renamed P.toRenaming) (Frame.Lowest P) rest rest')
    (hslots : f.slots < m.values.length) :
    Mirrors leave leave m m' fun o o' k k' => (o = none ∧ o' = none) ∧ k.InStep P 0 k' := by
  have hpop : ∀ {m k : Machine} {v : Value}, pop m = .ok v k →
      k.calls = m.calls ∧ m.values = v :: k.values := by
    intro m k v hpop
    unfold pop at hpop
    split at hpop
    · next hv =>
      cases hpop
      refine ⟨rfl, ?_⟩
      rw [Stack.top?_eq_head?] at hv
      show m.stack.down = v :: m.stack.dropTop.down
      rw [Stack.down_dropTop]
      exact (List.cons_head?_tail hv).symm
    · cases hpop
  refine (pop_mirrors h).with_eq.bind ?_
  rintro v v' k k' ⟨⟨hv, hk⟩, heq, heq'⟩
  obtain ⟨hkcalls, hvalues⟩ := hpop heq
  have hkcalls' := (hpop heq').1
  rw [hcalls] at hkcalls
  rw [hcalls'] at hkcalls'
  refine Mirrors.bind_of_eq (popFrame_eq hkcalls) (popFrame_eq hkcalls') ?_
  have hleft : ({ k with frames := k.frames.dropTop } : Machine).InStep P n
      { k' with frames := k'.frames.dropTop } := { hk with
    calls := by
      show OnBottom _ _ k.frames.dropTop.down k'.frames.dropTop.down
      rw [Stack.down_dropTop, Stack.down_dropTop, show k.frames.down = f :: rest from hkcalls,
        show k'.frames.down = f' :: rest' from hkcalls']
      exact hrest }
  have hclosed := hleft.closeCells f.slots
  rw [← hf.slots]
  refine Mirrors.bind_of_eq (x := closeCells _) (y := closeCells _) rfl rfl ?_
  refine Mirrors.bind_of_eq (x := modify _) (y := modify _) rfl rfl ?_
  refine resume_mirrors hf.resume ?_ hv
  -- What is left on the stacks is cut at the same place, above the lowest slot.
  have hle : f.slots ≤ k.values.length := by
    rw [hvalues, List.length_cons] at hslots
    omega
  have hroom := hf.room
  obtain ⟨xs, ys, cs, ds, hcut, hcut', hlength, -, hlow⟩ :=
    hk.values.exists_append (n := k.values.length - f.slots) (by omega)
  have hcs : f.slots = cs.length := by
    have := congrArg List.length hcut
    rw [List.length_append] at this
    omega
  have hdown : (k.stack.truncate f.slots).down = cs := Stack.down_truncate hcut hcs
  have hdown' : (k'.stack.truncate f.slots).down = ds :=
    Stack.down_truncate hcut' (hcs.trans hlow.length_eq)
  refine hclosed.withStack ?_ ?_
  · show OnBottom _ _ (k.stack.truncate f.slots).down (k'.stack.truncate f.slots).down
    rw [hdown, hdown']
    exact hlow
  · show f.resume.waiting < (k.stack.truncate f.slots).down.length
    rw [hdown, ← hcs]
    exact hroom

end Exec

end ScriptVM
