/-
# How code flows

What is known about the stack slots of a call before each instruction: their number, what each is
used for, and whether a closure may have captured it.  `Runs` says what one instruction makes of
that, and `Flow` that a whole piece of code is consistent: every instruction finds what it needs,
and every way out of it, jumps included, leads to the start of an instruction that expects what it
leaves behind.

A piece of code works above a base of slots that it never drops.  So it flows above any base with
more captured slots (`Flow.mono`), and slots can be moved between the base and what stands above it
(`Flow.rebase`).  Pieces are put together by `Flow.append`, `Flow.conditional`, `Flow.branch` and
`Flow.loop`.
-/
import Mathlib.Data.List.Forall2
import ScriptVM.Program.Scope
import ScriptVM.Proofs.Chunk.Instruction

namespace ScriptVM

/-! ## Slots -/

/-- What a stack slot is used for. -/
inductive SlotKind where
  /-- Any value of the language. -/
  | value
  /-- The instance of a method. -/
  | receiver
  /-- The callee of a function that is not called on an instance. -/
  | callee
  /-- A class. -/
  | parent
  /-- A closure that is about to become a member of a class. -/
  | member
deriving DecidableEq, Repr

/-- What a variable of a name is used for. -/
def SlotKind.ofName (name : String) : SlotKind :=
  if name = "self" then .receiver
  else if name = "super" then .parent
  else if name = "" then .callee
  else .value

/-- Whether what is used for the one can be used for the other: everything but a member is a
value. -/
def SlotKind.Serves (kind use : SlotKind) : Prop :=
  kind = use ∨ (use = .value ∧ kind ≠ .member)

/-- A stack slot. -/
structure Slot where
  /-- What it is used for. -/
  kind : SlotKind
  /-- Whether a cell may stand for it. -/
  captured : Bool
deriving DecidableEq, Repr

/-- A slot that no closure captures. -/
abbrev Slot.temp (kind : SlotKind) : Slot := ⟨kind, false⟩

/-- The slot of an operand. -/
abbrev Slot.operand : Slot := .temp .value

/-- A slot is used as another is, and captured only if that is. -/
def Slot.Le (s t : Slot) : Prop :=
  s.kind = t.kind ∧ (s.captured = true → t.captured = true)

theorem Slot.Le.refl (s : Slot) : s.Le s := ⟨rfl, id⟩

theorem Slot.Le.trans {s t u : Slot} (h₁ : s.Le t) (h₂ : t.Le u) : s.Le u :=
  ⟨h₁.1.trans h₂.1, h₂.2 ∘ h₁.2⟩

/-- The item with a number, counted from the bottom of a list whose first item is the topmost. -/
def slot? {α : Type} : List α → Nat → Option α
  | [], _ => none
  | x :: rest, i => if rest.length = i then some x else slot? rest i

section

variable {α β : Type} {X Y : List α} {i : Nat} {x : α}

theorem slot?_cons_length (x : α) (X : List α) : slot? (x :: X) X.length = some x := by
  simp [slot?]

/-- A slot that is there is one of the shape. -/
theorem lt_length_of_slot? (h : slot? X i = some x) : i < X.length := by
  induction X with
  | nil => simp [slot?] at h
  | cons t rest ih =>
    rw [slot?] at h
    split at h
    · simp; omega
    · have := ih h
      simp; omega

/-- What is in a slot is in the shape. -/
theorem mem_of_slot? (h : slot? X i = some x) : x ∈ X := by
  induction X with
  | nil => simp [slot?] at h
  | cons t rest ih =>
    rw [slot?] at h
    split at h
    · injection h with h
      exact h ▸ List.mem_cons_self
    · exact List.mem_cons_of_mem t (ih h)

/-- The lower items do not depend on what stands above them. -/
theorem slot?_append (h : i < Y.length) : slot? (X ++ Y) i = slot? Y i := by
  induction X with
  | nil => rfl
  | cons s rest ih =>
    rw [List.cons_append, slot?, if_neg, ih]
    simp
    omega

theorem slot?_append_of_some (h : slot? Y i = some x) : slot? (X ++ Y) i = some x := by
  rw [slot?_append (lt_length_of_slot? h), h]

/-- A slot of a mapped shape is the slot mapped. -/
theorem slot?_map (f : α → β) (X : List α) (i : Nat) : slot? (X.map f) i = (slot? X i).map f := by
  induction X with
  | nil => rfl
  | cons t rest ih =>
    rw [List.map_cons, slot?, slot?, List.length_map, ih]
    split <;> rfl

/-- The items of related lists are related. -/
theorem exists_slot?_of_forall₂ {R : α → β → Prop} {Z : List β} (h : List.Forall₂ R X Z)
    (hx : slot? X i = some x) : ∃ z, slot? Z i = some z ∧ R x z := by
  induction h with
  | nil => simp [slot?] at hx
  | @cons x' z' X Z hxz hXZ ih =>
    have hlen := hXZ.length_eq
    rw [slot?] at hx
    split at hx
    · next hi =>
      injection hx with hx
      subst hx
      exact ⟨z', by rw [slot?, if_pos (by omega)], hxz⟩
    · next hi =>
      obtain ⟨z, hz, hR⟩ := ih hx
      exact ⟨z, by rw [slot?, if_neg (by omega), hz], hR⟩

end

/-- The slots of a call, the topmost first. -/
abbrev Shape := List Slot

namespace Shape

/-- The slots of one shape are those of another, with more of them captured. -/
abbrev Le (X Y : Shape) : Prop :=
  List.Forall₂ Slot.Le X Y

theorem Le.refl (X : Shape) : Le X X :=
  List.forall₂_same.2 fun s _ => Slot.Le.refl s

/-- Slots may be captured one after the other. -/
theorem Le.trans {X Y Z : Shape} (h₁ : Le X Y) (h₂ : Le Y Z) : Le X Z := by
  induction h₁ generalizing Z with
  | nil => cases h₂; exact .nil
  | cons hs _ ih =>
    cases h₂ with
    | cons ht h => exact .cons (hs.trans ht) (ih h)

theorem Le.append {X X' Y Y' : Shape} (h₁ : Le X X') (h₂ : Le Y Y') : Le (X ++ Y) (X' ++ Y') :=
  List.rel_append h₁ h₂

end Shape

/-! ## Points -/

/-- Where the class that is being declared is kept. -/
inductive Home where
  /-- In a global variable. -/
  | global (name : String)
  /-- In a stack slot of the call. -/
  | slot (i : Nat)
deriving DecidableEq, Repr

/-- How far the declaration of a class has come. -/
inductive Stage where
  /-- No class is being declared, or nothing is known about it. -/
  | plain
  /-- The newest class is kept at home, and no other variable holds it. -/
  | fresh (home : Home)
  /-- The newest class is at home, and the value on top is another one. -/
  | chosen (home : Home)
  /-- The newest class is at home and on top, and the value below it is another one. -/
  | paired (home : Home)
  /-- The newest class is at home. -/
  | settled (home : Home)
  /-- The newest class is on top, to be given members; if it is derived, its superclass is below
  it. -/
  | held (derived : Bool)
  /-- A closure is on top, which may be an initializer, and below it the newest class, to be given
  it. -/
  | adding (derived initializes : Bool)
  /-- The value on top is the superclass that the function has captured. -/
  | bound
  /-- The value on top is what the function was called on. -/
  | own
deriving DecidableEq, Repr

/-- How far the declaration has come when a closure has been made, which may be an initializer. -/
def Stage.withClosure (initializes : Bool) : Stage → Stage
  | .held derived => .adding derived initializes
  | _ => .plain

/-- Whether a closure still has to be given to its class. -/
def Stage.isAdding : Stage → Bool
  | .adding _ _ => true
  | _ => false

/-- The stages at which a closure is made of a function: one that is not a member at none in
particular, and a member above its class. -/
def Stage.Makes (isMember : Bool) (st : Stage) : Prop :=
  if isMember then ∃ derived, st = .held derived else st = .plain

/-- Where a closure that is made above `height` slots finds the superclass that it captures: a
member below its class, and another function among what the function around captures. -/
def Capture.Inherits (c : Capture) (isMember : Bool) (st : Stage) (height : Nat) : Prop :=
  if isMember then st = .held true ∧ c.isLocal = true ∧ c.index.toNat + 2 = height
  else c.isLocal = false

/-- What is known before an instruction. -/
structure Point where
  /-- The slots above the base. -/
  shape : Shape
  /-- How far the declaration of a class has come. -/
  stage : Stage

/-- What is known at one point is known at another, where more slots may be captured, and less may
be known about a class; but a closure that has to be given to its class is not forgotten. -/
def Point.Le (p q : Point) : Prop :=
  p.shape.Le q.shape ∧ (q.stage = p.stage ∨ q.stage = .plain ∧ p.stage.isAdding = false)

theorem Point.Le.refl (p : Point) : p.Le p := ⟨Shape.Le.refl _, .inl rfl⟩

/-- What is known at one point is known at a third one, if it is at the second one. -/
theorem Point.Le.trans {p q r : Point} (h₁ : p.Le q) (h₂ : q.Le r) : p.Le r := by
  refine ⟨h₁.1.trans h₂.1, ?_⟩
  rcases h₁.2 with hpq | ⟨hpq, hadding⟩
  · rw [← hpq]
    exact h₂.2
  · rcases h₂.2 with hqr | ⟨hqr, -⟩
    · exact .inr ⟨hqr.trans hpq, hadding⟩
    · exact .inr ⟨hqr, hadding⟩

/-- A point at which nothing is known but the slots. -/
abbrev Point.at (X : Shape) : Point := ⟨X, .plain⟩

/-- The point at which more slots count as standing above the base. -/
def Point.above (p : Point) (Y : Shape) : Point := ⟨p.shape ++ Y, p.stage⟩

theorem Point.Le.above {p q : Point} (h : p.Le q) (Y : Shape) : (p.above Y).Le (q.above Y) :=
  ⟨h.1.append (Shape.Le.refl Y), h.2⟩

/-- An instruction with what is known before it. -/
structure Mark where
  /-- What is known before the instruction. -/
  point : Point
  /-- The instruction. -/
  instruction : Instruction

/-- A piece of code with what is known before each of its instructions. -/
abbrev Marks := List Mark

/-- What is known about a function: what it captures, what its slots are used for, and its marked
code. -/
structure Blueprint where
  /-- What the captured variables are used for. -/
  captures : List SlotKind
  /-- Whether it is called on an instance. -/
  isMember : Bool
  /-- Whether it sets an instance up, which it then returns. -/
  initializes : Bool
  /-- The slot of the callee. -/
  receiver : Slot
  /-- The slots of the parameters. -/
  parameters : Shape
  /-- The code. -/
  marks : Marks

/-- What a closure of a function is used for when it is made. -/
def Blueprint.closureKind (f : Blueprint) : SlotKind :=
  if f.isMember then .member else .value

/-- What the code of a function refers to. -/
structure Env where
  /-- The constants. -/
  constants : Array Value
  /-- The functions. -/
  blueprints : List Blueprint
  /-- What the captured variables are used for. -/
  captures : List SlotKind
  /-- Whether it is the code of an initializer. -/
  initializes : Bool

namespace Env

/-- The name that is the constant with an index. -/
def Names (Γ : Env) (index : UInt8) (name : String) : Prop :=
  Γ.constants[index.toNat]? = some (.string name)

/-- An environment has all that another has. -/
structure Le (Γ Δ : Env) : Prop where
  /-- The constants stay. -/
  constants : ∀ {i : Nat} {v : Value}, Γ.constants[i]? = some v → Δ.constants[i]? = some v
  /-- The functions stay. -/
  blueprints : ∀ {i : Nat} {f : Blueprint}, Γ.blueprints[i]? = some f → Δ.blueprints[i]? = some f
  /-- The captured variables stay. -/
  captures : ∀ {i : Nat} {k : SlotKind}, Γ.captures[i]? = some k → Δ.captures[i]? = some k
  /-- The function stays an initializer, or another function. -/
  initializes : Δ.initializes = Γ.initializes

/-- A variable to be captured is there, and used as the capture is: a slot marked as captured, or a
captured variable of the function around. -/
def Supplies (Γ : Env) (Y : Shape) (capture : Capture) (kind : SlotKind) : Prop :=
  if capture.isLocal then slot? Y capture.index.toNat = some ⟨kind, true⟩
  else Γ.captures[capture.index.toNat]? = some kind

/-- What can be captured can still be captured in a larger environment, with more slots captured. -/
theorem Supplies.mono {Γ Δ : Env} {Y Z : Shape} {c : Capture} {k : SlotKind}
    (h : Γ.Supplies Y c k) (hΓ : Γ.Le Δ) (hY : Y.Le Z) : Δ.Supplies Z c k := by
  unfold Supplies at h ⊢
  split at h
  · next hl =>
    rw [if_pos hl]
    obtain ⟨⟨kind, captured⟩, ht, hkind, hcaptured⟩ := exists_slot?_of_forall₂ hY h
    have hk : k = kind := hkind
    have hc : captured = true := hcaptured rfl
    rw [ht, hk, hc]
  · next hl =>
    rw [if_neg hl]
    exact hΓ.captures h

end Env

/-! ## Variables -/

/-- An instruction that reads a variable, and what the variable is used for. -/
inductive Reads (Γ : Env) (Y : Shape) : Opcode → UInt8 → SlotKind → Prop
  | fromSlot {i : UInt8} {s : Slot} (h : slot? Y i.toNat = some s) : Reads Γ Y .getLocal i s.kind
  | fromCell {i : UInt8} {k : SlotKind} (h : Γ.captures[i.toNat]? = some k) :
      Reads Γ Y .getUpvalue i k
  | fromGlobal {i : UInt8} {name : String} (h : Γ.Names i name) : Reads Γ Y .getGlobal i .value

/-- An instruction that assigns a variable. -/
inductive Writes (Γ : Env) (Y : Shape) : Opcode → UInt8 → Prop
  | toSlot {i : UInt8} {s : Slot} (h : slot? Y i.toNat = some s) (hs : s.kind = .value) :
      Writes Γ Y .setLocal i
  | toCell {i : UInt8} (h : Γ.captures[i.toNat]? = some .value) : Writes Γ Y .setUpvalue i
  | toGlobal {i : UInt8} {name : String} (h : Γ.Names i name) : Writes Γ Y .setGlobal i

/-- An instruction that reads the variable in which a class is kept. -/
def Home.ReadBy (Γ : Env) (home : Home) (op : Opcode) (i : UInt8) : Prop :=
  match home with
  | .global name => op = .getGlobal ∧ Γ.Names i name
  | .slot j => op = .getLocal ∧ i.toNat = j

/-- An instruction that does not read the variable in which a class is kept. -/
def Home.AvoidedBy (Γ : Env) (home : Home) (op : Opcode) (i : UInt8) : Prop :=
  match home with
  | .global name => op = .getGlobal → ∃ other, Γ.Names i other ∧ other ≠ name
  | .slot j => op = .getLocal → i.toNat ≠ j

/-- A variable that can be read can be read in a larger environment, with more slots captured. -/
theorem Reads.mono {Γ Δ : Env} {Y Z : Shape} {op : Opcode} {i : UInt8} {k : SlotKind}
    (h : Reads Γ Y op i k) (hΓ : Γ.Le Δ) (hY : Y.Le Z) : Reads Δ Z op i k := by
  cases h with
  | fromSlot h =>
    obtain ⟨t, ht, hle⟩ := exists_slot?_of_forall₂ hY h
    rw [hle.1]
    exact .fromSlot ht
  | fromCell h => exact .fromCell (hΓ.captures h)
  | fromGlobal h => exact .fromGlobal (hΓ.constants h)

/-- What stands above a variable does not change how it is read. -/
theorem Reads.append {Γ : Env} {Y : Shape} {op : Opcode} {i : UInt8} {k : SlotKind}
    (h : Reads Γ Y op i k) (X : Shape) : Reads Γ (X ++ Y) op i k := by
  cases h with
  | fromSlot h => exact .fromSlot (slot?_append_of_some h)
  | fromCell h => exact .fromCell h
  | fromGlobal h => exact .fromGlobal h

/-- A variable that can be assigned can be assigned in a larger environment, with more slots
captured. -/
theorem Writes.mono {Γ Δ : Env} {Y Z : Shape} {op : Opcode} {i : UInt8}
    (h : Writes Γ Y op i) (hΓ : Γ.Le Δ) (hY : Y.Le Z) : Writes Δ Z op i := by
  cases h with
  | toSlot h hs =>
    obtain ⟨t, ht, hle⟩ := exists_slot?_of_forall₂ hY h
    exact .toSlot ht (hle.1 ▸ hs)
  | toCell h => exact .toCell (hΓ.captures h)
  | toGlobal h => exact .toGlobal (hΓ.constants h)

/-- A home is read by the same instructions in a larger environment. -/
theorem Home.ReadBy.mono {Γ Δ : Env} {home : Home} {op : Opcode} {i : UInt8}
    (h : home.ReadBy Γ op i) (hΓ : Γ.Le Δ) : home.ReadBy Δ op i := by
  cases home with
  | global name => exact ⟨h.1, hΓ.constants h.2⟩
  | slot j => exact h

/-- A home is avoided by the same instructions in a larger environment. -/
theorem Home.AvoidedBy.mono {Γ Δ : Env} {home : Home} {op : Opcode} {i : UInt8}
    (h : home.AvoidedBy Γ op i) (hΓ : Γ.Le Δ) : home.AvoidedBy Δ op i := by
  cases home with
  | global name =>
    intro hop
    obtain ⟨other, hother, hne⟩ := h hop
    exact ⟨other, hΓ.constants hother, hne⟩
  | slot j => exact h

/-! ## One instruction -/

/-- A constant that is written in the source as it is. -/
def Value.isLiteral : Value → Bool
  | .int _ | .number _ | .string _ => true
  | _ => false

/-- The operand bytes that say where the captured variables of a closure come from. -/
def captureBytes (captures : List Capture) : List UInt8 :=
  captures.flatMap fun c => [if c.isLocal then 1 else 0, c.index]

/-- A captured variable takes two bytes. -/
theorem length_captureBytes (captures : List Capture) :
    (captureBytes captures).length = 2 * captures.length := by
  induction captures with
  | nil => rfl
  | cons c rest ih =>
    show (captureBytes rest).length + 2 = _
    rw [ih, List.length_cons]
    omega

/-- The instructions that push a value of their own. -/
def Opcode.pushes : List Opcode := [.pushNil, .pushTrue, .pushFalse]

/-- The instructions that replace one operand. -/
def Opcode.unaries : List Opcode := [.negate, .not]

/-- The instructions that replace two operands by one. -/
def Opcode.binaries : List Opcode :=
  [.add, .subtract, .multiply, .divide, .equal, .notEqual, .less, .greater]

/-- The instructions that add a member to a class. -/
def Opcode.members : List Opcode := [.method, .computedProperty]

/-- What an instruction that goes on behind itself needs, and what it leaves behind. -/
inductive Runs (Γ : Env) (S : Shape) : Opcode → List UInt8 → Point → Point → Prop
  | constant {c : UInt8} {v : Value} {X : Shape}
      (h : Γ.constants[c.toNat]? = some v) (hv : v.isLiteral = true) :
      Runs Γ S .constant [c] (.at X) (.at (.operand :: X))
  | push {op : Opcode} {X : Shape} (h : op ∈ Opcode.pushes) :
      Runs Γ S op [] (.at X) (.at (.operand :: X))
  | unary {op : Opcode} {X : Shape} (h : op ∈ Opcode.unaries) :
      Runs Γ S op [] (.at (.operand :: X)) (.at (.operand :: X))
  | binary {op : Opcode} {X : Shape} (h : op ∈ Opcode.binaries) :
      Runs Γ S op [] (.at (.operand :: .operand :: X)) (.at (.operand :: X))
  | print {X : Shape} : Runs Γ S .print [] (.at (.operand :: X)) (.at X)
  | pop {k : SlotKind} {X : Shape} : Runs Γ S .pop [] (.at (.temp k :: X)) (.at X)
  | close {s : Slot} {X : Shape} : Runs Γ S .closeUpvalue [] (.at (s :: X)) (.at X)
  | read {op : Opcode} {i : UInt8} {k use : SlotKind} {X : Shape}
      (h : Reads Γ (X ++ S) op i k) (hk : k.Serves use) :
      Runs Γ S op [i] (.at X) (.at (.temp use :: X))
  | write {op : Opcode} {i : UInt8} {X : Shape} (h : Writes Γ (X ++ S) op i) :
      Runs Γ S op [i] (.at (.operand :: X)) (.at (.operand :: X))
  | define {c : UInt8} {name : String} {X : Shape} (h : Γ.Names c name) :
      Runs Γ S .defineGlobal [c] (.at (.operand :: X)) (.at X)
  | call {n : UInt8} {X : Shape} :
      Runs Γ S .call [n] (.at (List.replicate (n.toNat + 1) .operand ++ X)) (.at (.operand :: X))
  | closure {c : UInt8} {id : FunctionId} {f : Blueprint} {captures : List Capture}
      {captured : Bool} {X : Shape} {st : Stage}
      (h : Γ.constants[c.toNat]? = some (.functionRef id))
      (hf : Γ.blueprints[id.index]? = some f) (hst : st.Makes f.isMember)
      (hcaptures : List.Forall₂ (Γ.Supplies (⟨f.closureKind, captured⟩ :: X ++ S))
        captures f.captures)
      (hparents : ∀ (j : Nat) (capture : Capture), captures[j]? = some capture →
        f.captures[j]? = some SlotKind.parent → capture.Inherits f.isMember st (X ++ S).length) :
      Runs Γ S .closure (c :: captureBytes captures) ⟨X, st⟩
        ⟨⟨f.closureKind, captured⟩ :: X, st.withClosure f.initializes⟩
  | getProperty {c : UInt8} {name : String} {X : Shape} (h : Γ.Names c name) :
      Runs Γ S .getProperty [c] (.at (.operand :: X)) (.at (.operand :: X))
  | setProperty {c : UInt8} {name : String} {X : Shape} (h : Γ.Names c name) :
      Runs Γ S .setProperty [c] (.at (.operand :: .operand :: X)) (.at (.operand :: X))
  | invoke {c n : UInt8} {name : String} {X : Shape} (h : Γ.Names c name) :
      Runs Γ S .invoke [c, n] (.at (List.replicate (n.toNat + 1) .operand ++ X))
        (.at (.operand :: X))
  | readSuper {i : UInt8} {X : Shape} (h : Γ.captures[i.toNat]? = some .parent) :
      Runs Γ S .getUpvalue [i] (.at X) ⟨.temp .parent :: X, .bound⟩
  | readOwn {s : Slot} {X : Shape} (h : slot? (X ++ S) 0 = some s) (hs : s.kind.Serves .value) :
      Runs Γ S .getLocal [0] (.at X) ⟨.operand :: X, .own⟩
  | getSuper {c : UInt8} {name : String} {X : Shape} (h : Γ.Names c name) :
      Runs Γ S .getSuper [c] ⟨.temp .parent :: .temp .receiver :: X, .bound⟩ (.at (.operand :: X))
  | invokeSuper {c n : UInt8} {name : String} {X : Shape} (h : Γ.Names c name) :
      Runs Γ S .invokeSuper [c, n]
        ⟨.temp .parent :: (List.replicate n.toNat .operand ++ .temp .receiver :: X), .bound⟩
        (.at (.operand :: X))
  | array {n : UInt8} {X : Shape} :
      Runs Γ S .arrayLiteral [n] (.at (List.replicate n.toNat .operand ++ X))
        (.at (.operand :: X))
  | addMember {op : Opcode} {c : UInt8} {name : String} {X : Shape} {derived initializes : Bool}
      (hop : op ∈ Opcode.members) (h : Γ.Names c name)
      (hinit : op = .method → name = "init" → initializes = true) :
      Runs Γ S op [c] ⟨.temp .member :: .temp .parent :: X, .adding derived initializes⟩
        ⟨.temp .parent :: X, .held derived⟩
  | newClass {c : UInt8} {name : String} {X : Shape} (h : Γ.Names c name) :
      Runs Γ S .newClass [c] (.at X) ⟨.operand :: X, .fresh (.slot (X ++ S).length)⟩
  | defineClass {c : UInt8} {name : String} {X : Shape} (h : Γ.Names c name) :
      Runs Γ S .defineGlobal [c] ⟨.operand :: X, .fresh (.slot (X ++ S).length)⟩
        ⟨X, .fresh (.global name)⟩
  | choose {op : Opcode} {i : UInt8} {k : SlotKind} {home : Home} {X : Shape}
      (h : Reads Γ (X ++ S) op i k) (hk : k.Serves .value) (hhome : home.AvoidedBy Γ op i) :
      Runs Γ S op [i] ⟨X, .fresh home⟩ ⟨.operand :: X, .chosen home⟩
  | pair {op : Opcode} {i : UInt8} {k : SlotKind} {home : Home} {X : Shape}
      (h : Reads Γ (.operand :: X ++ S) op i k) (hhome : home.ReadBy Γ op i) :
      Runs Γ S op [i] ⟨.operand :: X, .chosen home⟩ ⟨.temp .parent :: .operand :: X, .paired home⟩
  | inherit {home : Home} {X : Shape} :
      Runs Γ S .inherit [] ⟨.temp .parent :: .operand :: X, .paired home⟩
        ⟨.temp .parent :: X, .settled home⟩
  | hold {op : Opcode} {i : UInt8} {k : SlotKind} {home : Home} {X : Shape} {st : Stage}
      {derived : Bool} (h : Reads Γ (X ++ S) op i k) (hhome : home.ReadBy Γ op i)
      (hst : st = if derived then .settled home else .fresh home) :
      Runs Γ S op [i] ⟨X, st⟩ ⟨.temp .parent :: X, .held derived⟩

namespace Runs

variable {Γ Δ : Env} {S T : Shape} {op : Opcode} {operands : List UInt8} {p q : Point}

/-- An instruction goes on in any larger environment, above a base with more captured slots. -/
theorem mono (h : Runs Γ S op operands p q) (hΓ : Γ.Le Δ) (hS : S.Le T) :
    Runs Δ T op operands p q := by
  have happend : ∀ X : Shape, (X ++ S).Le (X ++ T) := fun X => (Shape.Le.refl X).append hS
  have hlength : ∀ X : Shape, (X ++ S).length = (X ++ T).length := fun X =>
    List.Forall₂.length_eq (happend X)
  cases h with
  | constant h hv => exact .constant (hΓ.constants h) hv
  | push h => exact .push h
  | unary h => exact .unary h
  | binary h => exact .binary h
  | print => exact .print
  | pop => exact .pop
  | close => exact .close
  | read h hk => exact .read (h.mono hΓ (happend _)) hk
  | write h => exact .write (h.mono hΓ (happend _))
  | define h => exact .define (hΓ.constants h)
  | call => exact .call
  | closure h hf hst hcaptures hparents =>
    rw [hlength] at hparents
    refine .closure (hΓ.constants h) (hΓ.blueprints hf) hst (hcaptures.imp fun c k hck => ?_)
      hparents
    exact hck.mono hΓ (happend (_ :: _))
  | getProperty h => exact .getProperty (hΓ.constants h)
  | setProperty h => exact .setProperty (hΓ.constants h)
  | invoke h => exact .invoke (hΓ.constants h)
  | readSuper h => exact .readSuper (hΓ.captures h)
  | readOwn h hs =>
    obtain ⟨t, ht, hle⟩ := exists_slot?_of_forall₂ (happend _) h
    exact .readOwn ht (hle.1 ▸ hs)
  | getSuper h => exact .getSuper (hΓ.constants h)
  | invokeSuper h => exact .invokeSuper (hΓ.constants h)
  | array => exact .array
  | addMember hop h hinit => exact .addMember hop (hΓ.constants h) hinit
  | newClass h =>
    rw [hlength]
    exact .newClass (hΓ.constants h)
  | defineClass h =>
    rw [hlength]
    exact .defineClass (hΓ.constants h)
  | choose h hk hhome => exact .choose (h.mono hΓ (happend _)) hk (hhome.mono hΓ)
  | pair h hhome => exact .pair (h.mono hΓ (happend (_ :: _))) (hhome.mono hΓ)
  | inherit => exact .inherit
  | hold h hhome hst => exact .hold (h.mono hΓ (happend _)) (hhome.mono hΓ) hst

/-- The slots on top of the base can be counted as standing above it. -/
theorem rebase {Y : Shape} (h : Runs Γ (Y ++ S) op operands p q) :
    Runs Γ S op operands (p.above Y) (q.above Y) := by
  -- The slots are the same list read in two ways, so most cases only regroup it.
  cases h with
  | constant h hv => exact .constant h hv
  | push h => exact .push h
  | unary h => exact .unary h
  | binary h => exact .binary h
  | print => exact .print
  | pop => exact .pop
  | close => exact .close
  | read h hk =>
    rw [← List.append_assoc] at h
    exact .read h hk
  | write h =>
    rw [← List.append_assoc] at h
    exact .write h
  | define h => exact .define h
  | call =>
    rw [Point.above, List.append_assoc]
    exact .call
  | closure h hf hst hcaptures hparents =>
    rw [← List.append_assoc] at hcaptures hparents
    exact .closure h hf hst hcaptures hparents
  | getProperty h => exact .getProperty h
  | setProperty h => exact .setProperty h
  | invoke h =>
    rw [Point.above, List.append_assoc]
    exact .invoke h
  | readSuper h => exact .readSuper h
  | readOwn h hs =>
    rw [← List.append_assoc] at h
    exact .readOwn h hs
  | getSuper h => exact .getSuper h
  | invokeSuper h =>
    rw [Point.above, List.cons_append, List.append_assoc, List.cons_append]
    exact .invokeSuper h
  | array =>
    rw [Point.above, List.append_assoc]
    exact .array
  | addMember hop h hinit => exact .addMember hop h hinit
  | newClass h =>
    rw [← List.append_assoc]
    exact .newClass h
  | defineClass h =>
    rw [← List.append_assoc]
    exact .defineClass h
  | choose h hk hhome =>
    rw [← List.append_assoc] at h
    exact .choose h hk hhome
  | pair h hhome =>
    rw [← List.append_assoc] at h
    exact .pair h hhome
  | inherit => exact .inherit
  | hold h hhome hst =>
    rw [← List.append_assoc] at h
    exact .hold h hhome hst

end Runs

/-! ## Marked code -/

namespace Marks

/-- The instructions of marked code. -/
def code (marks : Marks) : Code :=
  marks.map Mark.instruction

/-- What is known at an offset of marked code: before an instruction what its mark says, and behind
the last one `exit`. -/
def point? (exit : Option Point) : Marks → Nat → Option Point
  | [], offset => if offset = 0 then exit else none
  | m :: rest, offset =>
    if offset = 0 then some m.point
    else if offset < m.instruction.size then none
    else point? exit rest (offset - m.instruction.size)

@[simp] theorem code_nil : code [] = [] := rfl

@[simp] theorem code_cons (m : Mark) (rest : Marks) :
    code (m :: rest) = m.instruction :: code rest := rfl

@[simp] theorem code_append (a b : Marks) : code (a ++ b) = code a ++ code b :=
  List.map_append

@[simp] theorem point?_nil_zero (exit : Option Point) : point? exit [] 0 = exit := rfl

@[simp] theorem point?_cons_zero (exit : Option Point) (m : Mark) (rest : Marks) :
    point? exit (m :: rest) 0 = some m.point := by
  rw [point?, if_pos rfl]

/-- Behind a piece of marked code come the points of what follows it. -/
theorem point?_append_right (exit : Option Point) (a b : Marks) (offset : Nat) :
    point? exit (a ++ b) (a.code.extent + offset) = point? exit b offset := by
  induction a with
  | nil => rw [List.nil_append, code_nil, Code.extent_nil, Nat.zero_add]
  | cons m rest ih =>
    have hsize := m.instruction.size_pos
    rw [List.cons_append, code_cons, Code.extent_cons, point?, if_neg (by omega),
      if_neg (by omega), ← ih]
    congr 1
    omega

/-- The points of a piece of marked code do not depend on what follows it. -/
theorem point?_append_left (exit exit' : Option Point) (a b : Marks) {offset : Nat}
    (h : offset < a.code.extent) :
    point? exit (a ++ b) offset = point? exit' a offset := by
  induction a generalizing offset with
  | nil => simp at h
  | cons m rest ih =>
    rw [code_cons, Code.extent_cons] at h
    rw [List.cons_append, point?, point?]
    split
    · rfl
    · split
      · rfl
      · exact ih (by omega)

/-- Points stand where code can be cut. -/
theorem boundary_of_point? {exit : Option Point} {marks : Marks} {offset : Nat} {p : Point}
    (h : point? exit marks offset = some p) : marks.code.Boundary offset := by
  induction marks generalizing offset with
  | nil =>
    rw [point?] at h
    split at h
    · next h0 => exact h0 ▸ Code.boundary_zero _
    · simp at h
  | cons m rest ih =>
    rw [point?] at h
    split at h
    · next h0 => exact h0 ▸ Code.boundary_zero _
    · split at h
      · simp at h
      · have hb := (ih h).append_left [m.instruction]
        rw [Code.extent_cons, Code.extent_nil, Nat.add_zero] at hb
        rw [show offset = m.instruction.size + (offset - m.instruction.size) by omega]
        exact hb

end Marks

/-- What is known at a point is known at an offset. -/
def Reaches (points : Nat → Option Point) (offset : Nat) (p : Point) : Prop :=
  ∃ q, points offset = some q ∧ p.Le q

theorem Reaches.of_le {points : Nat → Option Point} {offset : Nat} {p q : Point}
    (hpq : p.Le q) (h : Reaches points offset q) : Reaches points offset p := by
  obtain ⟨r, hr, hle⟩ := h
  exact ⟨r, hr, hpq.trans hle⟩

/-- What is known at the start of a piece of marked code is known where other code stands in front
of it. -/
theorem Marks.reaches_behind {a b whole : Marks} {exit : Option Point} {k : Nat} {p : Point}
    (h : Reaches (b.point? exit) 0 p) (hwhole : whole = a ++ b) (hk : k = a.code.extent) :
    Reaches (whole.point? exit) k p := by
  obtain ⟨q, hq, hle⟩ := h
  refine ⟨q, ?_, hle⟩
  rw [hwhole, hk, ← Nat.add_zero a.code.extent, point?_append_right, hq]

/-- Behind marked code its exit is known. -/
theorem Marks.reaches_end {a : Marks} {q : Point} {k : Nat} (hk : k = a.code.extent) :
    Reaches (a.point? (some q)) k q :=
  reaches_behind (b := []) ⟨q, rfl, .refl q⟩ (List.append_nil a).symm hk

/-- What is known at the start of a piece of marked code is known where other code stands behind it,
if the exit is known there. -/
theorem Marks.reaches_front {a b : Marks} {exit : Option Point} {p q : Point}
    (h : Reaches (a.point? (some q)) 0 p) (hq : Reaches (b.point? exit) 0 q) :
    Reaches (point? exit (a ++ b)) 0 p := by
  cases a with
  | nil =>
    -- The first piece is empty, so its entry is its exit.
    obtain ⟨q', hq', hle⟩ := h
    rw [point?_nil_zero, Option.some.injEq] at hq'
    subst hq'
    exact hq.of_le hle
  | cons m rest =>
    rw [Reaches, point?_cons_zero] at h
    rw [Reaches, List.cons_append, point?_cons_zero]
    exact h

/-- Before an instruction is known what its mark says. -/
theorem Marks.reaches_cons {exit : Option Point} (m : Mark) (rest : Marks) :
    Reaches (point? exit (m :: rest)) 0 m.point :=
  ⟨m.point, point?_cons_zero _ _ _, .refl _⟩

/-- An instruction that ends at `next` finds what it needs at a point, and goes on where what it
leaves behind is known. -/
inductive Leads (Γ : Env) (S : Shape) (points : Nat → Option Point) (next : Nat) :
    Opcode → List UInt8 → Point → Prop
  | run {op : Opcode} {operands : List UInt8} {p q : Point}
      (h : Runs Γ S op operands p q) (hq : Reaches points next q) :
      Leads Γ S points next op operands p
  | ret {X : Shape} {st : Stage} (hst : st = if Γ.initializes then .own else .plain) :
      Leads Γ S points next .ret [] ⟨.operand :: X, st⟩
  | jump {high low : UInt8} {X : Shape}
      (h : Reaches points (next + distanceOf high low) (.at X)) :
      Leads Γ S points next .jump [high, low] (.at X)
  | jumpIfFalse {high low : UInt8} {X : Shape}
      (hthen : Reaches points next (.at (.operand :: X)))
      (helse : Reaches points (next + distanceOf high low) (.at (.operand :: X))) :
      Leads Γ S points next .jumpIfFalse [high, low] (.at (.operand :: X))
  | loop {high low : UInt8} {X : Shape} (hle : distanceOf high low ≤ next)
      (h : Reaches points (next - distanceOf high low) (.at X)) :
      Leads Γ S points next .loop [high, low] (.at X)

/-- From an offset on, the instructions of a piece of marked code lead to known points. -/
def Marks.Hold (Γ : Env) (S : Shape) (points : Nat → Option Point) : Nat → Marks → Prop
  | _, [] => True
  | offset, m :: rest =>
    Leads Γ S points (offset + m.instruction.size) m.instruction.op m.instruction.operands m.point ∧
      Hold Γ S points (offset + m.instruction.size) rest

namespace Leads

variable {Γ Δ : Env} {S T : Shape} {points points' : Nat → Option Point} {next : Nat}
  {op : Opcode} {operands : List UInt8} {p : Point}

/-- An instruction leads to the same points where its code is a part of other code. -/
theorem shift {k : Nat} (h : Leads Γ S points next op operands p)
    (hmap : ∀ o r, points o = some r → Reaches points' (k + o) r) :
    Leads Γ S points' (k + next) op operands p := by
  have hreach : ∀ o r, Reaches points o r → Reaches points' (k + o) r := by
    rintro o r ⟨r', hr', hle⟩
    exact (hmap o r' hr').of_le hle
  cases h with
  | run h hq => exact .run h (hreach _ _ hq)
  | ret hst => exact .ret hst
  | jump h =>
    have h' := hreach _ _ h
    rw [← Nat.add_assoc] at h'
    exact .jump h'
  | jumpIfFalse hthen helse =>
    have h' := hreach _ _ helse
    rw [← Nat.add_assoc] at h'
    exact .jumpIfFalse (hreach _ _ hthen) h'
  | loop hle h =>
    have h' := hreach _ _ h
    rw [← Nat.add_sub_assoc hle] at h'
    exact .loop (by omega) h'

/-- An instruction leads where it led, in a larger environment and above more captured slots. -/
theorem mono (h : Leads Γ S points next op operands p) (hΓ : Γ.Le Δ) (hS : S.Le T) :
    Leads Δ T points next op operands p := by
  cases h with
  | run h hq => exact .run (h.mono hΓ hS) hq
  | ret hst => exact .ret (hΓ.initializes ▸ hst)
  | jump h => exact .jump h
  | jumpIfFalse hthen helse => exact .jumpIfFalse hthen helse
  | loop hle h => exact .loop hle h

/-- An instruction leads to the same points if some slots of the shape count as part of the base. -/
theorem rebase {Y : Shape} (h : Leads Γ (Y ++ S) points next op operands p) :
    Leads Γ S (fun o => (points o).map (·.above Y)) next op operands (p.above Y) := by
  have hreach : ∀ {o r}, Reaches points o r →
      Reaches (fun o => (points o).map (·.above Y)) o (r.above Y) := by
    rintro o r ⟨r', hr', hle⟩
    exact ⟨r'.above Y, by simp [hr'], hle.above Y⟩
  cases h with
  | run h hq => exact .run h.rebase (hreach hq)
  | ret hst => exact .ret hst
  | jump h => exact .jump (hreach h)
  | jumpIfFalse hthen helse => exact .jumpIfFalse (hreach hthen) (hreach helse)
  | loop hle h => exact .loop hle (hreach h)

end Leads

namespace Marks

variable {Γ Δ : Env} {S T : Shape} {points points' : Nat → Option Point} {offset : Nat}

/-- Marked code holds just if both of its parts do, the second one behind the first. -/
theorem hold_append {a b : Marks} :
    Hold Γ S points offset (a ++ b) ↔
      a.Hold Γ S points offset ∧ b.Hold Γ S points (offset + a.code.extent) := by
  induction a generalizing offset with
  | nil => simp [Hold]
  | cons m rest ih =>
    rw [List.cons_append, Hold, Hold, ih, and_assoc, code_cons, Code.extent_cons, Nat.add_assoc]

/-- Marked code holds at a place further on, if the points it jumps to are known there. -/
theorem Hold.shift {a : Marks} {k : Nat} (h : a.Hold Γ S points offset)
    (hmap : ∀ o r, points o = some r → Reaches points' (k + o) r) :
    a.Hold Γ S points' (k + offset) := by
  induction a generalizing offset with
  | nil => trivial
  | cons m rest ih =>
    obtain ⟨hm, hrest⟩ := h
    rw [Hold, Nat.add_assoc]
    exact ⟨hm.shift hmap, ih hrest⟩

/-- **A piece of marked code holds inside larger code**, if it ends with what is known behind it. -/
theorem Hold.embed {a whole : Marks} {q : Point} {k : Nat} {exit : Option Point}
    (h : a.Hold Γ S (a.point? (some q)) 0) (pre post : Marks) (hq : Reaches (post.point? exit) 0 q)
    (hwhole : whole = pre ++ (a ++ post)) (hk : k = pre.code.extent) :
    a.Hold Γ S (whole.point? exit) k := by
  subst hwhole hk
  refine h.shift (k := pre.code.extent) fun o r hr => ?_
  rw [Reaches, point?_append_right]
  have hle : o ≤ a.code.extent := (boundary_of_point? hr).le_extent
  rcases Nat.lt_or_eq_of_le hle with hlt | rfl
  · refine ⟨r, ?_, Point.Le.refl r⟩
    rw [point?_append_left exit (some q) a post hlt, hr]
  · have hend := point?_append_right (some q) a [] 0
    rw [List.append_nil, Nat.add_zero, point?_nil_zero, hr, Option.some.injEq] at hend
    subst hend
    rw [← Nat.add_zero a.code.extent, point?_append_right]
    exact hq

/-- Marked code holds in a larger environment, above more captured slots. -/
theorem Hold.mono {a : Marks} (h : a.Hold Γ S points offset) (hΓ : Γ.Le Δ) (hS : S.Le T) :
    a.Hold Δ T points offset := by
  induction a generalizing offset with
  | nil => trivial
  | cons m rest ih => exact ⟨h.1.mono hΓ hS, ih h.2⟩

/-- Marked code with more slots counted as standing above the base. -/
def above (Y : Shape) (a : Marks) : Marks :=
  a.map fun m => ⟨m.point.above Y, m.instruction⟩

theorem code_above (Y : Shape) (a : Marks) : (a.above Y).code = a.code := by
  simp [above, code]

/-- What is known at an offset, with more slots counted as standing above the base. -/
theorem point?_above (Y : Shape) (exit : Option Point) (a : Marks) (offset : Nat) :
    (a.above Y).point? (exit.map (·.above Y)) offset = (a.point? exit offset).map (·.above Y) := by
  induction a generalizing offset with
  | nil =>
    show point? _ [] offset = _
    rw [point?, point?]
    split <;> rfl
  | cons m rest ih =>
    show point? _ (⟨m.point.above Y, m.instruction⟩ :: above Y rest) offset = _
    rw [point?, point?, ih]
    split
    · rfl
    · split <;> rfl

/-- Marked code that holds above a base holds above a lower one. -/
theorem Hold.rebase {a : Marks} {Y : Shape} (h : a.Hold Γ (Y ++ S) points offset) :
    (a.above Y).Hold Γ S (fun o => (points o).map (·.above Y)) offset := by
  induction a generalizing offset with
  | nil => trivial
  | cons m rest ih => exact ⟨h.1.rebase, ih h.2⟩

end Marks

/-! ## Pieces of code -/

/-- A piece of code leads from one point to another: it can be marked so that it starts where the
one is known and all its instructions lead to marks or, with what the other says, behind the code.
Without an exit, no instruction leads behind the code. -/
def Flow (Γ : Env) (S : Shape) (p : Point) (code : Code) (exit : Option Point) : Prop :=
  ∃ marks : Marks, marks.code = code ∧ Reaches (marks.point? exit) 0 p ∧
    marks.Hold Γ S (marks.point? exit) 0

namespace Flow

variable {Γ Δ : Env} {S T X Y : Shape} {p q : Point} {exit : Option Point}
  {a b c : Code} {line line' : Nat}

theorem nil (h : p.Le q) : Flow Γ S p [] q :=
  ⟨[], rfl, ⟨q, rfl, h⟩, trivial⟩

/-- One instruction that goes on behind itself. -/
theorem of_runs {op : Opcode} {operands : List UInt8} (h : Runs Γ S op operands p q) (line : Nat) :
    Flow Γ S p [⟨op, operands, line⟩] q :=
  ⟨[⟨p, ⟨op, operands, line⟩⟩], rfl, Marks.reaches_cons _ _,
    .run h (Marks.reaches_end (by simp)), trivial⟩

/-- Leaving the call, of an initializer with what it was called on. -/
theorem ret {st : Stage} (hst : st = if Γ.initializes then .own else .plain) (line : Nat) :
    Flow Γ S ⟨.operand :: X, st⟩ [⟨.ret, [], line⟩] exit :=
  ⟨[⟨⟨.operand :: X, st⟩, ⟨.ret, [], line⟩⟩], rfl, Marks.reaches_cons _ _, .ret hst, trivial⟩

/-- One piece of code behind another. -/
theorem append (h₁ : Flow Γ S p a q) (h₂ : Flow Γ S q b exit) : Flow Γ S p (a ++ b) exit := by
  obtain ⟨as, rfl, ha, hholda⟩ := h₁
  obtain ⟨bs, rfl, hb, hholdb⟩ := h₂
  refine ⟨as ++ bs, Marks.code_append as bs, Marks.reaches_front ha hb,
    Marks.hold_append.2 ⟨?_, ?_⟩⟩
  · exact hholda.embed [] bs hb rfl rfl
  · rw [Nat.zero_add]
    refine hholdb.shift (k := as.code.extent) fun o r hr => ⟨r, ?_, .refl r⟩
    rw [Marks.point?_append_right, hr]

/-- Less may be asked for at the end. -/
theorem weaken {r : Point} (h : Flow Γ S p a q) (hq : q.Le r) : Flow Γ S p a r := by
  have := h.append (nil hq)
  rwa [List.append_nil] at this

theorem mono (h : Flow Γ S p a exit) (hΓ : Γ.Le Δ) (hS : S.Le T) : Flow Δ T p a exit := by
  obtain ⟨marks, hcode, hentry, hhold⟩ := h
  exact ⟨marks, hcode, hentry, hhold.mono hΓ hS⟩

/-- The slots on top of the base can be counted as standing above it. -/
theorem rebase (h : Flow Γ (Y ++ S) p a exit) :
    Flow Γ S (p.above Y) a (exit.map (·.above Y)) := by
  obtain ⟨marks, hcode, ⟨p', hp', hle⟩, hhold⟩ := h
  refine ⟨marks.above Y, by rw [Marks.code_above, hcode], ⟨p'.above Y, ?_, hle.above Y⟩, ?_⟩
  · rw [Marks.point?_above, hp', Option.map_some]
  · have h := hhold.rebase
    rw [show (fun o => (marks.point? exit o).map (·.above Y))
      = (marks.above Y).point? (exit.map (·.above Y)) from
        funext fun o => (Marks.point?_above Y exit marks o).symm] at h
    exact h

/-! ### Jumps -/

/-- A jump with its operand bytes. -/
theorem exists_bytes {distance : Nat} (h : distance ≤ Chunk.distanceLimit) :
    ∃ high low, distanceBytes distance = [high, low] ∧ distanceOf high low = distance :=
  ⟨_, _, rfl, distanceOf_distanceBytes h⟩

/-- A piece of code that is passed over if the value on top counts as false. -/
theorem conditional (h : Flow Γ S (.at (.operand :: X)) a (some (.at (.operand :: X))))
    (ha : a.extent ≤ Chunk.distanceLimit) :
    Flow Γ S (.at (.operand :: X)) (⟨.jumpIfFalse, distanceBytes a.extent, line⟩ :: a)
      (some (.at (.operand :: X))) := by
  obtain ⟨as, rfl, hentry, hhold⟩ := h
  obtain ⟨high, low, hbytes, hdistance⟩ := exists_bytes ha
  rw [hbytes]
  let skip : Mark := ⟨.at (.operand :: X), ⟨.jumpIfFalse, [high, low], line⟩⟩
  refine ⟨skip :: as, rfl, Marks.reaches_cons _ _, .jumpIfFalse ?_ ?_, ?_⟩
  · exact Marks.reaches_behind hentry (a := [skip]) rfl rfl
  · exact Marks.reaches_end (by simp [hdistance])
  · exact hhold.embed [skip] [] (Marks.reaches_end rfl) (by simp) rfl

/-- Two pieces of code, of which the second is done if the value on top counts as false, and the
first otherwise. -/
theorem branch (h₁ : Flow Γ S (.at (.operand :: X)) a (some (.at Y)))
    (h₂ : Flow Γ S (.at (.operand :: X)) b (some (.at Y)))
    (ha : a.extent + Chunk.jumpLength ≤ Chunk.distanceLimit)
    (hb : b.extent ≤ Chunk.distanceLimit) :
    Flow Γ S (.at (.operand :: X))
      (⟨.jumpIfFalse, distanceBytes (a.extent + Chunk.jumpLength), line⟩ ::
        (a ++ ⟨.jump, distanceBytes b.extent, line'⟩ :: b))
      (some (.at Y)) := by
  obtain ⟨as, rfl, hentrya, hholda⟩ := h₁
  obtain ⟨bs, rfl, hentryb, hholdb⟩ := h₂
  obtain ⟨high, low, hbytes, hdistance⟩ := exists_bytes ha
  obtain ⟨high', low', hbytes', hdistance'⟩ := exists_bytes hb
  rw [hbytes, hbytes']
  let go : Mark := ⟨.at (.operand :: X), ⟨.jumpIfFalse, [high, low], line⟩⟩
  let skip : Mark := ⟨.at Y, ⟨.jump, [high', low'], line'⟩⟩
  have hgo : go.instruction.size = Chunk.jumpLength := rfl
  have hskip : skip.instruction.size = Chunk.jumpLength := rfl
  have hfront : Reaches (Marks.point? (some (.at Y)) (as ++ skip :: bs)) 0 (.at (.operand :: X)) :=
    Marks.reaches_front hentrya (Marks.reaches_cons _ _)
  refine ⟨go :: (as ++ skip :: bs), by simp [go, skip], Marks.reaches_cons _ _,
    .jumpIfFalse ?_ ?_, Marks.hold_append.2 ⟨?_, .jump ?_, ?_⟩⟩
  · exact Marks.reaches_behind hfront (a := [go]) rfl rfl
  · exact Marks.reaches_behind hentryb (a := go :: (as ++ [skip])) (by simp)
      (by simp [hdistance, hgo, hskip])
  · exact hholda.embed [go] (skip :: bs) (Marks.reaches_cons skip bs) rfl rfl
  · exact Marks.reaches_end (by simp [hdistance', hgo, hskip]; omega)
  · exact hholdb.embed (go :: (as ++ [skip])) [] (Marks.reaches_end rfl) (by simp)
      (by simp [hgo, hskip]; omega)

/-- A piece of code that is repeated until the condition in front of it counts as false. -/
theorem loop (hc : Flow Γ S (.at X) c (some (.at (.operand :: X))))
    (ha : Flow Γ S (.at (.operand :: X)) a (some (.at X)))
    (hb : Flow Γ S (.at (.operand :: X)) b (some (.at Y)))
    (hforward : a.extent + Chunk.jumpLength ≤ Chunk.distanceLimit)
    (hback : c.extent + Chunk.jumpLength + a.extent + Chunk.jumpLength ≤ Chunk.distanceLimit) :
    Flow Γ S (.at X)
      (c ++ ⟨.jumpIfFalse, distanceBytes (a.extent + Chunk.jumpLength), line⟩ ::
        (a ++ ⟨.loop,
          distanceBytes (c.extent + Chunk.jumpLength + a.extent + Chunk.jumpLength), line'⟩ :: b))
      (some (.at Y)) := by
  obtain ⟨cs, rfl, hentryc, hholdc⟩ := hc
  obtain ⟨as, rfl, hentrya, hholda⟩ := ha
  obtain ⟨bs, rfl, hentryb, hholdb⟩ := hb
  obtain ⟨high, low, hbytes, hdistance⟩ := exists_bytes hforward
  obtain ⟨high', low', hbytes', hdistance'⟩ := exists_bytes hback
  rw [hbytes, hbytes']
  let leave : Mark := ⟨.at (.operand :: X), ⟨.jumpIfFalse, [high, low], line⟩⟩
  let again : Mark := ⟨.at X, ⟨.loop, [high', low'], line'⟩⟩
  have hleave : leave.instruction.size = Chunk.jumpLength := rfl
  have hagain : again.instruction.size = Chunk.jumpLength := rfl
  have hbody : Reaches (Marks.point? (some (.at Y)) (as ++ again :: bs)) 0 (.at (.operand :: X)) :=
    Marks.reaches_front hentrya (Marks.reaches_cons _ _)
  have hstart : Reaches (Marks.point? (some (.at Y)) (cs ++ leave :: (as ++ again :: bs))) 0
      (.at X) := Marks.reaches_front hentryc (Marks.reaches_cons _ _)
  refine ⟨cs ++ leave :: (as ++ again :: bs), by simp [leave, again], hstart,
    Marks.hold_append.2 ⟨?_, .jumpIfFalse ?_ ?_, Marks.hold_append.2 ⟨?_, .loop ?_ ?_, ?_⟩⟩⟩
  · exact hholdc.embed [] _ (Marks.reaches_cons leave _) rfl rfl
  · exact Marks.reaches_behind hbody (a := cs ++ [leave]) (by simp) (by simp)
  · exact Marks.reaches_behind hentryb (a := cs ++ leave :: (as ++ [again])) (by simp)
      (by simp [hdistance, hleave, hagain]; omega)
  · exact hholda.embed (cs ++ [leave]) _ (Marks.reaches_cons again bs) (by simp) (by simp)
  · rw [hdistance', hleave, hagain]
    omega
  · rw [hdistance', hleave, hagain, show 0 + cs.code.extent + Chunk.jumpLength + as.code.extent
      + Chunk.jumpLength - (cs.code.extent + Chunk.jumpLength + as.code.extent + Chunk.jumpLength)
      = 0 by omega]
    exact hstart
  · exact hholdb.embed (cs ++ leave :: (as ++ [again])) [] (Marks.reaches_end rfl) (by simp)
      (by simp [hleave, hagain]; omega)

end Flow

end ScriptVM
