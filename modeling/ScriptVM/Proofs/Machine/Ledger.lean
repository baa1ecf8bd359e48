/-
# The variables of a run

A stack slot is used for one variable after the other, and a captured variable goes on when its slot
is gone.  A `Ledger` follows a run from outside: it numbers the variables in the order in which they
begin, and keeps for each slot and for each cell the variable it stands for, and for each variable
the value that was written to it last.

Every instruction takes a number of values off the stack (`Machine.kept` is what it leaves), and
everything that stands above the rest behind it begins there: operands, locals and parameters alike.
The ledger never looks at what a cell holds; `Ledger.Describes` says that slots and cells hold what
it says.
-/
import Mathlib.Data.List.Nodup
import ScriptVM.Proofs.Session.Soundness

namespace ScriptVM

/-! ## The next instruction -/

namespace Machine

/-- A byte of the next instruction. -/
def byte? (m : Machine) (k : Nat) : Option UInt8 :=
  m.frames.top?.bind fun f => (m.heap.functionOf f.closure).chunk.code[f.ip + k]?

/-- The opcode of the next instruction. -/
def opcode? (m : Machine) : Option Opcode :=
  (m.byte? 0).bind Opcode.ofByte?

/-- An operand of the next instruction. -/
def operand (m : Machine) (k : Nat) : Nat :=
  ((m.byte? (k + 1)).getD 0).toNat

section

variable {m : Machine} {f : Frame} {rest : List Frame} {op : Opcode} {byte : UInt8} {k : Nat}

theorem top?_of_calls (h : m.calls = f :: rest) : m.frames.top? = some f := by
  rw [Stack.top?_eq_head?]
  exact congrArg List.head? h

/-- The opcode of the next instruction is the one where the innermost call stands. -/
theorem opcode?_eq (h : m.calls = f :: rest)
    (hop : (Exec.chunkOf m f).code[f.ip]? = some op.toByte) : m.opcode? = some op := by
  rw [opcode?, byte?, top?_of_calls h]
  show ((Exec.chunkOf m f).code[f.ip]?).bind Opcode.ofByte? = some op
  rw [hop]
  exact Opcode.ofByte?_toByte op

/-- An operand of the next instruction is one of the bytes behind the opcode. -/
theorem operand_eq (h : m.calls = f :: rest)
    (hbyte : (Exec.chunkOf m f).code[f.ip + 1 + k]? = some byte) : m.operand k = byte.toNat := by
  rw [operand, byte?, top?_of_calls h]
  show (((Exec.chunkOf m f).code[f.ip + (k + 1)]?).getD 0).toNat = _
  rw [show f.ip + (k + 1) = f.ip + 1 + k by omega, hbyte]
  rfl

end

end Machine

/-- The next instruction of a running machine, and where it leads. -/
theorem RunsAt.next {W : World} {m : Machine} {f : Frame} {rest : List Frame} {bp : Blueprint}
    {X below : Shape} {st : Stage} (h : RunsAt W m f rest bp X below st) :
    ∃ op operands next, m.opcode? = some op ∧
      (∀ {k byte}, operands[k]? = some byte → (Exec.chunkOf m f).code[f.ip + 1 + k]? = some byte) ∧
      Exec.step m = Exec.execute op (m.moveTo (f.ip + 1)) ∧
      Leads (.of W m f bp) [bp.receiver] (bp.marks.point? none) next op operands ⟨X, st⟩ := by
  obtain ⟨i, hat, hleads⟩ := h.exists_instruction
  exact ⟨i.op, i.operands, _, Machine.opcode?_eq h.calls hat.op, hat.operand,
    Exec.bind_of_ok (Exec.readOpcode_eq h.calls hat.op), hleads⟩

/-- The opcode that a running machine reads is that of its next instruction. -/
theorem Machine.Running.opcode?_of_readOpcode {ground : Ground} {m m' : Machine} {op : Opcode}
    (h : m.Running ground) (hread : Exec.readOpcode m = .ok op m') : m.opcode? = some op := by
  obtain ⟨W, f, rest, bp, X, below, st, -, h⟩ := h
  obtain ⟨i, hat, -⟩ := h.exists_instruction
  rw [Exec.readOpcode_eq h.calls hat.op] at hread
  injection hread with hop
  exact hop ▸ opcode?_eq h.calls hat.op

/-- The number of values below a call that are taken together with its result. -/
def Resume.waiting : Resume → Nat
  | .property => 1
  | .invocation arguments => arguments.toNat + 1
  | .finish | .caller | .superProperty | .description _ => 0

namespace Machine

/-- The stack slots that the call in progress leaves when it ends. -/
def left (m : Machine) : Nat :=
  match m.frames.top? with
  | some f => f.slots - f.resume.waiting
  | none => 0

/-- The number of values that an instruction takes off the stack. -/
def taken (m : Machine) : Opcode → Nat
  | .negate | .not | .print | .pop | .defineGlobal | .closeUpvalue | .getProperty | .method
  | .computedProperty | .inherit => 1
  | .add | .subtract | .multiply | .divide | .equal | .notEqual | .less | .greater | .setProperty
  | .getSuper => 2
  | .call => m.operand 0 + 1
  | .invoke => m.operand 1 + 1
  | .invokeSuper => m.operand 1 + 2
  | .arrayLiteral => m.operand 0
  | .ret => m.stack.size - m.left
  | .uninitialized | .constant | .pushTrue | .pushFalse | .pushNil | .getGlobal | .setGlobal
  | .getLocal | .setLocal | .getUpvalue | .setUpvalue | .jump | .jumpIfFalse | .loop | .closure
  | .newClass => 0

/-- The number of slots that the next instruction leaves alone. -/
def kept (m : Machine) : Nat :=
  m.stack.size - (m.opcode?.map m.taken).getD 0

end Machine

/-! ## Aliases -/

/-- A way to get at a variable. -/
inductive Alias where
  /-- A stack slot. -/
  | slot (i : Nat)
  /-- A cell. -/
  | cell (id : CellId)

namespace Machine

/-- A variable of the call in progress: a local one, or one that its closure has captured. -/
def alias? (m : Machine) (isLocal : Bool) (index : Nat) : Option Alias :=
  m.frames.top?.bind fun f =>
    if isLocal then some (.slot (f.slots + index))
    else ((m.heap.closure f.closure).captures[index]?).map .cell

/-- The variable that the next instruction reads. -/
def read? (m : Machine) : Option Alias :=
  match m.opcode? with
  | some .getLocal => m.alias? true (m.operand 0)
  | some .getUpvalue => m.alias? false (m.operand 0)
  | _ => none

/-- The variable that the next instruction assigns. -/
def written? (m : Machine) : Option Alias :=
  match m.opcode? with
  | some .setLocal => m.alias? true (m.operand 0)
  | some .setUpvalue => m.alias? false (m.operand 0)
  | _ => none

/-- The variable that the next instruction captures for a closure, at a place among those of the
closure. -/
def captured? (m : Machine) (k : Nat) : Option Alias :=
  m.alias? (m.operand (2 * k + 1) = 1) (m.operand (2 * k + 2))

end Machine

/-! ## Ledgers -/

/-- What is known from outside about the variables of a run. -/
structure Ledger where
  /-- The variable of each stack slot, bottom first. -/
  owners : List Nat
  /-- The variable of each cell. -/
  homes : List Nat
  /-- The value last written to each variable. -/
  contents : List Value

namespace Ledger

/-- The variable that an alias stands for. -/
def varOf? (L : Ledger) : Alias → Option Nat
  | .slot i => L.owners[i]?
  | .cell id => L.homes[id.index]?

/-- The value last written to the variable of an alias. -/
def value? (L : Ledger) (a : Alias) : Option Value :=
  (L.varOf? a).bind (L.contents[·]?)

/-- A value is written to the variable of an alias. -/
def write (L : Ledger) (a : Alias) (v : Value) : Ledger :=
  match L.varOf? a with
  | some x => { L with contents := L.contents.set x v }
  | none => L

/-- The variable of the slot that a cell has been made for. -/
def homeOf (owners : List Nat) (cell : Cell) : Nat :=
  (cell.slot?.bind (owners[·]?)).getD 0

/-- The variables of the slots above the lowest `k` begin, with the values that stand there; cells
that were not there before belong to the variables of their slots. -/
def renew (L : Ledger) (k : Nat) (m : Machine) : Ledger :=
  let owners := L.owners.take k ++ List.range' L.contents.length (m.stack.size - k)
  { owners
    homes := L.homes ++ (m.heap.cells.toList.drop L.homes.length).map (homeOf owners)
    contents := L.contents ++ m.stack.toList.drop k }

/-- What the next instruction assigns. -/
def assign (L : Ledger) (m : Machine) : Ledger :=
  match m.written?, m.stack.top? with
  | some a, some v => L.write a v
  | _, _ => L

/-- The ledger behind the next instruction. -/
def after (L : Ledger) (m m' : Machine) : Ledger :=
  (L.assign m).renew m.kept m'

/-- The ledger at the start of a run: every slot and every cell is a variable of its own. -/
def start (m : Machine) : Ledger where
  owners := List.range m.stack.size
  homes := List.range' m.stack.size m.heap.cells.size
  contents := m.stack.toList ++ m.heap.cells.toList.map fun
    | .closed v => v
    | .openAt _ => .nil

/-! ### What an instruction changes -/

variable {L : Ledger} {m m' : Machine} {a : Alias} {v : Value} {x : Nat}

@[simp] theorem owners_write (L : Ledger) (a : Alias) (v : Value) :
    (L.write a v).owners = L.owners := by
  unfold write
  split <;> rfl

@[simp] theorem homes_write (L : Ledger) (a : Alias) (v : Value) :
    (L.write a v).homes = L.homes := by
  unfold write
  split <;> rfl

/-- Writing begins no variables. -/
@[simp] theorem length_contents_write (L : Ledger) (a : Alias) (v : Value) :
    (L.write a v).contents.length = L.contents.length := by
  unfold write
  split
  · exact List.length_set
  · rfl

@[simp] theorem owners_assign (L : Ledger) (m : Machine) : (L.assign m).owners = L.owners := by
  unfold assign
  split <;> simp

@[simp] theorem homes_assign (L : Ledger) (m : Machine) : (L.assign m).homes = L.homes := by
  unfold assign
  split <;> simp

@[simp] theorem length_contents_assign (L : Ledger) (m : Machine) :
    (L.assign m).contents.length = L.contents.length := by
  unfold assign
  split <;> simp

/-- A cell stays with its variable. -/
theorem homes_after (L : Ledger) (m m' : Machine) : L.homes <+: (L.after m m').homes := by
  show L.homes <+: (L.assign m).homes ++ _
  rw [homes_assign]
  exact List.prefix_append _ _

/-- A variable that begins has a new number. -/
theorem le_of_mem_owners_after (hx : x ∈ (L.after m m').owners) (hnew : x ∉ L.owners) :
    L.contents.length ≤ x := by
  rcases List.mem_append.1 hx with hold | hx
  · rw [owners_assign] at hold
    exact absurd (List.mem_of_mem_take hold) hnew
  · rw [length_contents_assign] at hx
    exact (List.mem_range'_1.1 hx).1

/-- An alias stays with its variable, as long as its slot is left alone. -/
theorem varOf?_after (hx : L.varOf? a = some x) (hslot : ∀ i, a = .slot i → i < m.kept) :
    (L.after m m').varOf? a = some x := by
  cases a with
  | slot i =>
    have hx : L.owners[i]? = some x := hx
    have hlt : i < (L.owners.take m.kept).length := by
      rw [List.length_take]
      exact Nat.lt_min.2 ⟨hslot i rfl, (List.getElem?_eq_some_iff.1 hx).1⟩
    show ((L.assign m).owners.take m.kept ++ _)[i]? = _
    rw [owners_assign, List.getElem?_append_left hlt, List.getElem?_take_of_lt (hslot i rfl), hx]
  | cell id => exact getElem?_of_isPrefix (L.homes_after m m') hx

/-- A variable that has begun keeps its value, unless the instruction assigns it. -/
theorem contents_after (hlt : x < L.contents.length)
    (hother : ∀ a, m.written? = some a → L.varOf? a ≠ some x) :
    (L.after m m').contents[x]? = L.contents[x]? := by
  have hassign : (L.assign m).contents[x]? = L.contents[x]? := by
    unfold assign
    split
    · next a v ha _ =>
      unfold write
      split
      · next y hy =>
        refine List.getElem?_set_ne ?_
        rintro rfl
        exact hother a ha hy
      · rfl
    · rfl
  rw [← hassign]
  refine List.getElem?_append_left ?_
  rwa [length_contents_assign]

end Ledger

/-- The machines that a run comes to, with their ledgers. -/
inductive Machine.Progress.Tracked (start : Machine.Progress) : Machine → Ledger → Prop
  | start {m : Machine} (h : start = .running m) : Tracked start m (.start m)
  | step {m m' : Machine} {L : Ledger} (h : Tracked start m L)
      (hstep : Exec.step m = .ok none m') : Tracked start m' (L.after m m')
  | pause {m : Machine} {L : Ledger} (h : Tracked start m L) (pause : Pause) :
      Tracked start (pause.apply m) L

namespace Machine.Progress

variable {start : Machine.Progress} {m : Machine} {L : Ledger}

/-- A machine to which a run is tracked is one that the run visits. -/
theorem Tracked.visits (h : start.Tracked m L) : start.Visits m := by
  induction h with
  | start h => exact .start h
  | step _ hstep ih => exact ih.step hstep
  | pause _ pause ih => exact ih.pause pause

/-- Every machine that a run comes to has a ledger. -/
theorem Visits.exists_tracked (h : start.Visits m) : ∃ L, start.Tracked m L := by
  induction h with
  | start h => exact ⟨_, .start h⟩
  | step _ hstep ih =>
    obtain ⟨L, hL⟩ := ih
    exact ⟨_, hL.step hstep⟩
  | pause _ pause ih =>
    obtain ⟨L, hL⟩ := ih
    exact ⟨L, hL.pause pause⟩

end Machine.Progress

/-! ## Ledgers that are right -/

/-- Slots and cells hold what a ledger says, and each variable has at most one slot and one cell. -/
structure Ledger.Describes (L : Ledger) (m : Machine) : Prop where
  /-- Every slot has a variable. -/
  length_owners : L.owners.length = m.stack.size
  /-- Every cell has a variable. -/
  length_homes : L.homes.length = m.heap.cells.size
  /-- No two slots have the same variable. -/
  owners_nodup : L.owners.Nodup
  /-- No two cells have the same variable. -/
  homes_nodup : L.homes.Nodup
  /-- A slot holds what was written to its variable last. -/
  slot : ∀ {i x : Nat} {v : Value}, L.owners[i]? = some x → m.stack.toList[i]? = some v →
    L.contents[x]? = some v
  /-- An open cell stands for a slot of its variable. -/
  opened : ∀ {i s : Nat}, m.heap.cells[i]? = some (.openAt s) →
    ∃ x, L.homes[i]? = some x ∧ L.owners[s]? = some x
  /-- A closed cell holds what was written to its variable last, which has no slot any more. -/
  closed : ∀ {i : Nat} {v : Value}, m.heap.cells[i]? = some (.closed v) →
    ∃ x, L.homes[i]? = some x ∧ L.contents[x]? = some v ∧ x ∉ L.owners

/-- What becomes of slots and cells when the lowest `k` slots are left alone: the others go away,
and their cells take the values over. -/
structure Machine.Keeps (k : Nat) (m m' : Machine) : Prop where
  /-- The slots are there. -/
  le_size : k ≤ m.stack.size
  /-- They are still there. -/
  le_size' : k ≤ m'.stack.size
  /-- They hold what they held. -/
  values : m'.stack.toList.take k = m.stack.toList.take k
  /-- A cell is as it was, and stands for none of the other slots, or has taken the value of its
  slot over. -/
  cells : ∀ {i : Nat} {c : Cell}, m.heap.cells[i]? = some c →
    m'.heap.cells[i]? = some c ∧ (∀ s, c = .openAt s → s < k) ∨
      ∃ s v, c = .openAt s ∧ k ≤ s ∧ m.stack.toList[s]? = some v ∧
        m'.heap.cells[i]? = some (.closed v)
  /-- A new cell stands for a slot. -/
  made : ∀ {i : Nat} {c : Cell}, m.heap.cells.size ≤ i → m'.heap.cells[i]? = some c →
    ∃ s, c = .openAt s ∧ s < m'.stack.size
  /-- No two cells stand for the same slot. -/
  alone : ∀ {i j s : Nat}, m'.heap.cells[i]? = some (.openAt s) →
    m'.heap.cells[j]? = some (.openAt s) → i = j

/-- In a list without duplicates an item has one place. -/
theorem eq_of_nodup {l : List Nat} {i j x : Nat} (h : l.Nodup) (hi : l[i]? = some x)
    (hj : l[j]? = some x) : i = j := by
  obtain ⟨hi', hix⟩ := List.getElem?_eq_some_iff.1 hi
  obtain ⟨hj', hjx⟩ := List.getElem?_eq_some_iff.1 hj
  exact (List.Nodup.getElem_inj_iff h).1 (hix.trans hjx.symm)

/-- A list in which every item has one place is without duplicates. -/
theorem nodup_of_eq {l : List Nat}
    (h : ∀ {i j x : Nat}, l[i]? = some x → l[j]? = some x → i = j) : l.Nodup := by
  refine List.nodup_iff_getElem?_ne_getElem?.2 fun i j hij hj heq => ?_
  have hj' := List.getElem?_eq_getElem hj
  exact Nat.ne_of_lt hij (h (heq.trans hj') hj')

namespace Ledger.Describes

variable {L : Ledger} {k : Nat} {m m' : Machine}

/-- The variable of a slot. -/
theorem exists_owner (h : L.Describes m) {i : Nat} (hi : i < m.stack.size) :
    ∃ x, L.owners[i]? = some x := by
  rw [← h.length_owners] at hi
  exact ⟨_, List.getElem?_eq_getElem hi⟩

/-- A variable with a slot has begun. -/
theorem owner_lt (h : L.Describes m) {x : Nat} (hx : x ∈ L.owners) : x < L.contents.length := by
  obtain ⟨i, hi⟩ := List.mem_iff_getElem?.1 hx
  have hlt := (List.getElem?_eq_some_iff.1 hi).1
  rw [h.length_owners, ← Stack.length_toList] at hlt
  exact (List.getElem?_eq_some_iff.1 (h.slot hi (List.getElem?_eq_getElem hlt))).1

/-- A variable with a cell has begun. -/
theorem home_lt (h : L.Describes m) {x : Nat} (hx : x ∈ L.homes) : x < L.contents.length := by
  obtain ⟨i, hi⟩ := List.mem_iff_getElem?.1 hx
  have hlt := (List.getElem?_eq_some_iff.1 hi).1
  rw [h.length_homes] at hlt
  have hget := Array.getElem?_eq_getElem hlt
  cases hcell : m.heap.cells[i] with
  | openAt s =>
    rw [hcell] at hget
    obtain ⟨y, hy, hsy⟩ := h.opened hget
    obtain rfl : y = x := Option.some.inj (hy.symm.trans hi)
    exact h.owner_lt (List.mem_of_getElem? hsy)
  | closed v =>
    rw [hcell] at hget
    obtain ⟨y, hy, hyv, -⟩ := h.closed hget
    obtain rfl : y = x := Option.some.inj (hy.symm.trans hi)
    exact (List.getElem?_eq_some_iff.1 hyv).1

/-- No two cells stand for the same slot. -/
theorem alone (h : L.Describes m) {i j s : Nat} (hi : m.heap.cells[i]? = some (.openAt s))
    (hj : m.heap.cells[j]? = some (.openAt s)) : i = j := by
  obtain ⟨x, hx, hsx⟩ := h.opened hi
  obtain ⟨y, hy, hsy⟩ := h.opened hj
  obtain rfl : x = y := Option.some.inj (hsx.symm.trans hsy)
  exact eq_of_nodup h.homes_nodup hx hy

/-- Only the stack and the cells matter. -/
theorem congr (h : L.Describes m) (hstack : m'.stack = m.stack)
    (hcells : m'.heap.cells = m.heap.cells) : L.Describes m' := by
  constructor
  · rw [hstack, h.length_owners]
  · rw [hcells, h.length_homes]
  · exact h.owners_nodup
  · exact h.homes_nodup
  · rw [hstack]
    exact h.slot
  · rw [hcells]
    exact h.opened
  · rw [hcells]
    exact h.closed

/-! ### Variables begin -/

theorem length_renewed (h : L.Describes m) (hk : m.Keeps k m') :
    (L.owners.take k).length = k := by
  rw [List.length_take, h.length_owners]
  exact Nat.min_eq_left hk.le_size

/-- The slots that are left alone keep their variables. -/
theorem owners_of_lt (h : L.Describes m) (hk : m.Keeps k m') {i : Nat} (hi : i < k) :
    (L.renew k m').owners[i]? = L.owners[i]? := by
  show (L.owners.take k ++ _)[i]? = _
  rw [List.getElem?_append_left (by rw [h.length_renewed hk]; exact hi),
    List.getElem?_take_of_lt hi]

/-- The other slots have new variables. -/
theorem owners_of_ge (h : L.Describes m) (hk : m.Keeps k m') {i : Nat} (hi : k ≤ i)
    (hsize : i < m'.stack.size) :
    (L.renew k m').owners[i]? = some (L.contents.length + (i - k)) := by
  show (L.owners.take k ++ List.range' _ _)[i]? = _
  rw [List.getElem?_append_right (by rw [h.length_renewed hk]; exact hi), h.length_renewed hk,
    List.getElem?_range' (by omega), Nat.one_mul]

/-- An old variable that has a slot has it among those left alone. -/
theorem mem_renewed {x : Nat} (hx : x ∈ (L.renew k m').owners)
    (hold : x < L.contents.length) : ∃ i < k, L.owners[i]? = some x := by
  rcases List.mem_append.1 hx with hx | hx
  · obtain ⟨i, hi⟩ := List.mem_iff_getElem?.1 hx
    rw [List.getElem?_take] at hi
    split at hi
    · next hlt => exact ⟨i, hlt, hi⟩
    · cases hi
  · have hge := (List.mem_range'_1.1 hx).1
    omega

/-- What was written to a variable stays known. -/
theorem contents_renewed {x : Nat} {v : Value} (hx : L.contents[x]? = some v) :
    (L.renew k m').contents[x]? = some v := by
  show (L.contents ++ _)[x]? = _
  rw [List.getElem?_append_left (List.getElem?_eq_some_iff.1 hx).1, hx]

/-- Cells keep their variables. -/
theorem homes_renewed {i x : Nat} (hx : L.homes[i]? = some x) :
    (L.renew k m').homes[i]? = some x := by
  show (L.homes ++ _)[i]? = _
  rw [List.getElem?_append_left (List.getElem?_eq_some_iff.1 hx).1, hx]

/-- Each variable still has at most one slot. -/
theorem owners_renewed_nodup (h : L.Describes m) : (L.renew k m').owners.Nodup := by
  refine List.Nodup.append (h.owners_nodup.sublist (List.take_sublist k _))
    List.nodup_range' fun x hx hx' => ?_
  have hlt := h.owner_lt (List.mem_of_mem_take hx)
  have hge := (List.mem_range'_1.1 hx').1
  omega

/-- What stands in a slot is what was last written to its variable. -/
theorem slot_renewed (h : L.Describes m) (hk : m.Keeps k m') {i x : Nat} {v : Value}
    (hx : (L.renew k m').owners[i]? = some x) (hv : m'.stack.toList[i]? = some v) :
    (L.renew k m').contents[x]? = some v := by
  have hsize := (List.getElem?_eq_some_iff.1 hv).1
  rw [Stack.length_toList] at hsize
  rcases Nat.lt_or_ge i k with hi | hi
  · rw [h.owners_of_lt hk hi] at hx
    refine contents_renewed (h.slot hx ?_)
    rw [← List.getElem?_take_of_lt hi, ← hk.values, List.getElem?_take_of_lt hi, hv]
  · rw [h.owners_of_ge hk hi hsize] at hx
    obtain rfl := Option.some.inj hx
    show (L.contents ++ m'.stack.toList.drop k)[_]? = _
    rw [List.getElem?_append_right (by omega), Nat.add_sub_cancel_left, List.getElem?_drop,
      Nat.add_sub_cancel' hi, hv]

/-- An open cell belongs to the variable of its slot. -/
theorem opened_renewed (h : L.Describes m) (hk : m.Keeps k m') {i s : Nat}
    (hi : m'.heap.cells[i]? = some (.openAt s)) :
    ∃ x, (L.renew k m').homes[i]? = some x ∧ (L.renew k m').owners[s]? = some x := by
  rcases Nat.lt_or_ge i m.heap.cells.size with hlt | hge
  · rcases hk.cells (Array.getElem?_eq_getElem hlt) with ⟨hsame, hbelow⟩ | ⟨s', v, -, -, -, hclosed⟩
    · have hold := Option.some.inj (hsame.symm.trans hi)
      obtain ⟨x, hx, hsx⟩ := h.opened (hold ▸ Array.getElem?_eq_getElem hlt)
      refine ⟨x, homes_renewed hx, ?_⟩
      rw [h.owners_of_lt hk (hbelow s hold), hsx]
    · rw [hi] at hclosed
      cases hclosed
  · obtain ⟨s', hs', hsize⟩ := hk.made hge hi
    obtain rfl : s = s' := Cell.openAt.inj hs'
    obtain ⟨x, hx⟩ : ∃ x, (L.renew k m').owners[s]? = some x := by
      rcases Nat.lt_or_ge s k with hsk | hsk
      · have hlt := Nat.lt_of_lt_of_le hsk hk.le_size
        rw [← h.length_owners] at hlt
        exact ⟨_, (h.owners_of_lt hk hsk).trans (List.getElem?_eq_getElem hlt)⟩
      · exact ⟨_, h.owners_of_ge hk hsk hsize⟩
    refine ⟨x, ?_, hx⟩
    show (L.homes ++ ((m'.heap.cells.toList.drop L.homes.length).map
      (homeOf (L.renew k m').owners)))[i]? = _
    rw [List.getElem?_append_right (by rw [h.length_homes]; exact hge), List.getElem?_map,
      List.getElem?_drop, Nat.add_sub_cancel' (by rw [h.length_homes]; exact hge),
      Array.getElem?_toList, hi]
    show some ((((L.renew k m').owners)[s]?).getD 0) = some x
    rw [hx]
    rfl

/-- A closed cell was there before, and holds what was last written to its variable, which has no
slot any longer. -/
theorem closed_renewed (h : L.Describes m) (hk : m.Keeps k m') {i : Nat} {v : Value}
    (hi : m'.heap.cells[i]? = some (.closed v)) :
    i < m.heap.cells.size ∧ ∃ x, L.homes[i]? = some x ∧ L.contents[x]? = some v ∧
      x ∉ (L.renew k m').owners := by
  rcases Nat.lt_or_ge i m.heap.cells.size with hlt | hge
  · refine ⟨hlt, ?_⟩
    rcases hk.cells (Array.getElem?_eq_getElem hlt) with ⟨hsame, -⟩ | ⟨s, w, hopen, hs, hw, hclosed⟩
    · have hold := Option.some.inj (hsame.symm.trans hi)
      obtain ⟨x, hx, hxv, hnot⟩ := h.closed (hold ▸ Array.getElem?_eq_getElem hlt)
      refine ⟨x, hx, hxv, fun hmem => hnot ?_⟩
      obtain ⟨j, -, hj⟩ := mem_renewed hmem (List.getElem?_eq_some_iff.1 hxv).1
      exact List.mem_of_getElem? hj
    · obtain rfl : w = v := by
        rw [hi] at hclosed
        exact (Cell.closed.inj (Option.some.inj hclosed)).symm
      obtain ⟨x, hx, hsx⟩ := h.opened (hopen ▸ Array.getElem?_eq_getElem hlt)
      have hxv := h.slot hsx hw
      refine ⟨x, hx, hxv, fun hmem => ?_⟩
      obtain ⟨j, hj, hjx⟩ := mem_renewed hmem (List.getElem?_eq_some_iff.1 hxv).1
      have := eq_of_nodup h.owners_nodup hjx hsx
      omega
  · obtain ⟨s, hs, -⟩ := hk.made hge hi
    cases hs

/-- Each cell belongs to a variable. -/
theorem length_homes_renewed (h : L.Describes m) (hk : m.Keeps k m') :
    (L.renew k m').homes.length = m'.heap.cells.size := by
  have hle : m.heap.cells.size ≤ m'.heap.cells.size := by
    rcases Nat.eq_zero_or_pos m.heap.cells.size with hzero | hpos
    · omega
    · have hlast : m.heap.cells.size - 1 < m.heap.cells.size := by omega
      have hthere : m.heap.cells.size - 1 < m'.heap.cells.size := by
        rcases hk.cells (Array.getElem?_eq_getElem hlast) with ⟨hsame, -⟩ | ⟨_, _, -, -, -, hclosed⟩
        · exact (Array.getElem?_eq_some_iff.1 hsame).1
        · exact (Array.getElem?_eq_some_iff.1 hclosed).1
      omega
  show (L.homes ++ _).length = _
  rw [List.length_append, List.length_map, List.length_drop, Array.length_toList, h.length_homes]
  omega

/-- No two cells have the same variable: an open cell is the only one of its slot, and the variable
of a closed one has no slot. -/
theorem eq_of_home_renewed (h : L.Describes m) (hk : m.Keeps k m') {i j x : Nat}
    (hi : (L.renew k m').homes[i]? = some x) (hj : (L.renew k m').homes[j]? = some x) : i = j := by
  have hcell : ∀ {i : Nat}, (L.renew k m').homes[i]? = some x →
      ∃ c, m'.heap.cells[i]? = some c := fun hi => by
    have hlt := (List.getElem?_eq_some_iff.1 hi).1
    rw [h.length_homes_renewed hk] at hlt
    exact ⟨_, Array.getElem?_eq_getElem hlt⟩
  have hopened : ∀ {i s : Nat}, (L.renew k m').homes[i]? = some x →
      m'.heap.cells[i]? = some (.openAt s) → (L.renew k m').owners[s]? = some x := by
    intro i s hi hopen
    obtain ⟨y, hy, hsy⟩ := h.opened_renewed hk hopen
    rw [hsy, ← hy, hi]
  have hclosed : ∀ {i : Nat} {v : Value}, (L.renew k m').homes[i]? = some x →
      m'.heap.cells[i]? = some (.closed v) → L.homes[i]? = some x ∧ x ∉ (L.renew k m').owners := by
    intro i v hi hclosed
    obtain ⟨-, y, hy, -, hnot⟩ := h.closed_renewed hk hclosed
    obtain rfl : y = x := Option.some.inj ((homes_renewed hy).symm.trans hi)
    exact ⟨hy, hnot⟩
  obtain ⟨c, hc⟩ := hcell hi
  obtain ⟨d, hd⟩ := hcell hj
  cases c with
  | openAt s =>
    have hs := hopened hi hc
    cases d with
    | openAt t =>
      obtain rfl := eq_of_nodup h.owners_renewed_nodup hs (hopened hj hd)
      exact hk.alone hc hd
    | closed w => exact absurd (List.mem_of_getElem? hs) (hclosed hj hd).2
  | closed v =>
    obtain ⟨hold, hnot⟩ := hclosed hi hc
    cases d with
    | openAt t => exact absurd (List.mem_of_getElem? (hopened hj hd)) hnot
    | closed w => exact eq_of_nodup h.homes_nodup hold (hclosed hj hd).1

/-- **Variables begin and end** as slots come and go. -/
theorem renew (h : L.Describes m) (hk : m.Keeps k m') : (L.renew k m').Describes m' where
  length_owners := by
    show (L.owners.take k ++ _).length = _
    rw [List.length_append, h.length_renewed hk, List.length_range']
    have := hk.le_size'
    omega
  length_homes := h.length_homes_renewed hk
  owners_nodup := h.owners_renewed_nodup
  homes_nodup := nodup_of_eq fun hi hj => h.eq_of_home_renewed hk hi hj
  slot := h.slot_renewed hk
  opened := h.opened_renewed hk
  closed hi := by
    obtain ⟨-, x, hx, hxv, hnot⟩ := h.closed_renewed hk hi
    exact ⟨x, homes_renewed hx, contents_renewed hxv, hnot⟩

/-! ### Variables are assigned -/

/-- Another variable keeps its value. -/
theorem contents_write {x y : Nat} {v w : Value} (hy : L.contents[y]? = some w) (hne : y ≠ x) :
    (L.contents.set x v)[y]? = some w := by
  rw [List.getElem?_set_ne (Ne.symm hne), hy]

/-- A variable in a slot is assigned. -/
theorem assignSlot (h : L.Describes m) {s x : Nat} {v w : Value} (hs : L.owners[s]? = some x)
    (hw : L.contents[x]? = some w) :
    Describes { L with contents := L.contents.set x v }
      { m with stack := m.stack.replace s v } where
  length_owners := by
    rw [Stack.size_replace]
    exact h.length_owners
  length_homes := h.length_homes
  owners_nodup := h.owners_nodup
  homes_nodup := h.homes_nodup
  slot {i y u} hy hu := by
    have hu : (m.stack.replace s v).toList[i]? = some u := hu
    rw [Stack.toList_replace] at hu
    by_cases hi : s = i
    · subst hi
      obtain rfl : x = y := Option.some.inj (hs.symm.trans hy)
      have hlt := (List.getElem?_eq_some_iff.1 hw).1
      obtain ⟨-, -, rfl⟩ := Option.map_eq_some_iff.1 (List.getElem?_set_self'.symm.trans hu)
      exact List.getElem?_set_self hlt
    · rw [List.getElem?_set_ne hi] at hu
      refine contents_write (h.slot hy hu) ?_
      rintro rfl
      exact hi (eq_of_nodup h.owners_nodup hs hy)
  opened hi := h.opened hi
  closed hi := by
    obtain ⟨y, hy, hyv, hnot⟩ := h.closed hi
    refine ⟨y, hy, contents_write hyv ?_, hnot⟩
    rintro rfl
    exact hnot (List.mem_of_getElem? hs)

/-- A variable in a closed cell is assigned. -/
theorem assignCell (h : L.Describes m) {id : CellId} {x : Nat} {v w : Value}
    (hid : m.heap.cells[id.index]? = some (.closed w)) (hx : L.homes[id.index]? = some x) :
    Describes { L with contents := L.contents.set x v }
      { m with heap := m.heap.setCell id (.closed v) } := by
  obtain ⟨y, hy, hyw, hnot⟩ := h.closed hid
  obtain rfl : x = y := Option.some.inj (hx.symm.trans hy)
  have hcells : ∀ i, (m.heap.setCell id (.closed v)).cells[i]?
      = if id.index = i then some (.closed v) else m.heap.cells[i]? := fun i => by
    rw [Heap.setCell, Array.getElem?_setIfInBounds]
    split
    · rw [if_pos (Array.getElem?_eq_some_iff.1 hid).1]
    · rfl
  -- No slot has the variable of a closed cell, and no other cell has it either.
  refine ⟨h.length_owners, ?_, h.owners_nodup, h.homes_nodup, ?_, ?_, ?_⟩
  · rw [h.length_homes]
    exact (Array.size_setIfInBounds ..).symm
  · intro i z u hz hu
    refine contents_write (h.slot hz hu) ?_
    rintro rfl
    exact hnot (List.mem_of_getElem? hz)
  · intro i s hi
    have hi : (m.heap.setCell id (.closed v)).cells[i]? = _ := hi
    rw [hcells] at hi
    split at hi
    · cases hi
    · exact h.opened hi
  · intro i u hi
    have hi : (m.heap.setCell id (.closed v)).cells[i]? = _ := hi
    rw [hcells] at hi
    split at hi
    · next hsame =>
      obtain rfl : v = u := Cell.closed.inj (Option.some.inj hi)
      exact ⟨x, hsame ▸ hx, List.getElem?_set_self (List.getElem?_eq_some_iff.1 hyw).1, hnot⟩
    · next hother =>
      obtain ⟨z, hz, hzu, hnot'⟩ := h.closed hi
      refine ⟨z, hz, contents_write hzu ?_, hnot'⟩
      rintro rfl
      exact hother (eq_of_nodup h.homes_nodup hx hz)

/-! ### Aliases of a variable -/

/-- A cell stands for a slot if and only if both belong to one variable. -/
theorem opens_iff (h : L.Describes m) {i j : Nat} : m.heap.cells[j]? = some (.openAt i) ↔
    ∃ x, L.homes[j]? = some x ∧ L.owners[i]? = some x := by
  constructor
  · exact h.opened
  · rintro ⟨x, hj, hi⟩
    have hlt := (List.getElem?_eq_some_iff.1 hj).1
    rw [h.length_homes] at hlt
    have hget := Array.getElem?_eq_getElem hlt
    cases hcell : m.heap.cells[j] with
    | openAt s =>
      rw [hcell] at hget
      obtain ⟨y, hy, hsy⟩ := h.opened hget
      obtain rfl := Option.some.inj (hy.symm.trans hj)
      rw [hget, eq_of_nodup h.owners_nodup hsy hi]
    | closed v =>
      rw [hcell] at hget
      obtain ⟨y, hy, -, hnot⟩ := h.closed hget
      obtain rfl := Option.some.inj (hy.symm.trans hj)
      exact absurd (List.mem_of_getElem? hi) hnot

/-- The variable of a slot that the instruction leaves alone. -/
theorem owners_after (h : L.Describes m) (m' : Machine) {i : Nat} (hi : i < m.kept) :
    ∃ x, L.owners[i]? = some x ∧ (L.after m m').owners[i]? = some x := by
  have hsize : i < m.stack.size := Nat.lt_of_lt_of_le hi (Nat.sub_le _ _)
  obtain ⟨x, hx⟩ := h.exists_owner hsize
  exact ⟨x, hx, Ledger.varOf?_after (a := .slot i) hx fun j hj => by
    injection hj with hj
    exact hj ▸ hi⟩

/-! ### The start of a run -/

/-- The ledger at the start of a run is right if no cell is open. -/
theorem start (hclosed : Trusted m.heap.slots) : (Ledger.start m).Describes m where
  length_owners := List.length_range
  length_homes := List.length_range'
  owners_nodup := List.nodup_range
  homes_nodup := List.nodup_range'
  slot {i x v} hx hv := by
    have hx : (List.range m.stack.size)[i]? = some x := hx
    have hlt := (List.getElem?_eq_some_iff.1 hv).1
    rw [List.getElem?_range (by rwa [Stack.length_toList] at hlt)] at hx
    obtain rfl := Option.some.inj hx
    show (m.stack.toList ++ _)[i]? = _
    rw [List.getElem?_append_left hlt, hv]
  opened {i s} hi := by
    exact absurd ⟨s, hi⟩ (Heap.trusted_iff.1 hclosed ⟨i⟩)
  closed {i v} hi := by
    have hlt := (Array.getElem?_eq_some_iff.1 hi).1
    refine ⟨m.stack.size + i, ?_, ?_, ?_⟩
    · show (List.range' _ _)[i]? = _
      rw [List.getElem?_range' hlt, Nat.one_mul]
    · show (m.stack.toList ++ _)[_]? = _
      rw [List.getElem?_append_right (by simp), Stack.length_toList, Nat.add_sub_cancel_left,
        List.getElem?_map, Array.getElem?_toList, hi]
      rfl
    · show _ ∉ List.range _
      rw [List.mem_range]
      omega

end Ledger.Describes

end ScriptVM
