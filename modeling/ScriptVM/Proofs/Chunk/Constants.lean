/-
# The constants of a chunk

Constants are added one at a time, and one that can stand for the new value is used again.  So no
constant of a chunk can stand for a later one, there are never more of them than an index can name,
and what an index names never changes (`Chunk.Pool`).

A constant and the value that it stands for have the same shape, with values of one kind at each
position, except that within an array an integer may stand for the number that is exactly the
integer, or the number for the integer (`Value.Resembles`).  The constants that compiled code has
are no arrays, so they keep their kind.

Main statements: `Chunk.pool_addConstants`, `Value.sameConstant_resembles`.
-/
import Mathlib.Data.List.Forall2
import ScriptVM.Proofs.Chunk.Instruction
import ScriptVM.Proofs.Value.Equality

namespace ScriptVM

/-! ## Values that only stand for themselves -/

theorem Value.eq_of_sameConstant_string {v : Value} {s : String}
    (h : v.sameConstant (.string s) = true) : v = .string s := by
  cases v <;> simp [sameConstant, equals] at h
  rw [h]

theorem Value.eq_of_sameConstant_functionRef {v : Value} {id : FunctionId}
    (h : v.sameConstant (.functionRef id) = true) : v = .functionRef id := by
  cases v <;> simp [sameConstant, equals] at h
  rw [h]

/-! ## The pool -/

namespace Chunk

variable {chunk chunk' : Chunk} {u v : Value} {index : UInt8}

/-- No constant can stand for this value. -/
def Lacks (chunk : Chunk) (v : Value) : Prop :=
  ∀ u ∈ chunk.constants.toList, u.sameConstant v = false

/-- The ways of adding a constant: one that can stand for it is there, there is room for it, or
there is none. -/
theorem addConstant_cases (chunk : Chunk) (v : Value) :
    (∃ i, ∃ h : i < chunk.constants.size, chunk.constants[i].sameConstant v = true ∧
      chunk.addConstant v = (some (UInt8.ofNat i), chunk)) ∨
    (chunk.Lacks v ∧ chunk.constants.size < constantLimit ∧
      chunk.addConstant v = (some (UInt8.ofNat chunk.constants.size),
        { chunk with constants := chunk.constants.push v })) ∨
    (chunk.Lacks v ∧ constantLimit ≤ chunk.constants.size ∧
      chunk.addConstant v = (none, chunk)) := by
  rw [addConstant]
  cases hfind : chunk.constants.findIdx? (·.sameConstant v) with
  | some i =>
    obtain ⟨hlt, hsame, -⟩ := Array.findIdx?_eq_some_iff_getElem.1 hfind
    exact .inl ⟨i, hlt, hsame, rfl⟩
  | none =>
    have hlacks : chunk.Lacks v := fun u hu => by
      simpa using Array.findIdx?_eq_none_iff.1 hfind u (Array.mem_toList_iff.1 hu)
    by_cases hroom : chunk.constants.size < constantLimit
    · exact .inr (.inl ⟨hlacks, hroom, if_pos hroom⟩)
    · exact .inr (.inr ⟨hlacks, Nat.le_of_not_lt hroom, if_neg hroom⟩)

/-- Constants are only ever appended. -/
theorem constants_addConstant (chunk : Chunk) (v : Value) :
    chunk.constants.toList <+: (chunk.addConstant v).2.constants.toList := by
  rcases chunk.addConstant_cases v with ⟨i, -, -, heq⟩ | ⟨-, -, heq⟩ | ⟨-, -, heq⟩
  · exact heq ▸ List.prefix_refl _
  · rw [heq, Array.toList_push]
    exact List.prefix_append _ _
  · exact heq ▸ List.prefix_refl _

/-- An index is given for a constant that is there already, or for a new one at the end. -/
theorem addConstant_some_cases (h : chunk.addConstant v = (some index, chunk')) :
    (∃ i, ∃ hi : i < chunk.constants.size, chunk.constants[i].sameConstant v = true ∧
      index = UInt8.ofNat i ∧ chunk' = chunk) ∨
    (chunk.constants.size < constantLimit ∧ index = UInt8.ofNat chunk.constants.size ∧
      chunk' = { chunk with constants := chunk.constants.push v }) := by
  rcases chunk.addConstant_cases v with ⟨i, hlt, hsame, heq⟩ | ⟨-, hroom, heq⟩ | ⟨-, -, heq⟩ <;>
    obtain ⟨hindex, rfl⟩ := Prod.mk.inj (heq.symm.trans h)
  · exact .inl ⟨i, hlt, hsame, (Option.some.inj hindex).symm, rfl⟩
  · exact .inr ⟨hroom, (Option.some.inj hindex).symm, rfl⟩
  · cases hindex

/-- The constant with the index that is given stands for the value. -/
theorem getElem?_of_addConstant (h : chunk.addConstant v = (some index, chunk'))
    (hsize : chunk.constants.size ≤ constantLimit) :
    ∃ u, chunk'.constants[index.toNat]? = some u ∧ (u = v ∨ u.sameConstant v = true) := by
  rcases addConstant_some_cases h with ⟨i, hlt, hsame, rfl, rfl⟩ | ⟨hroom, rfl, rfl⟩
  · refine ⟨_, ?_, .inr hsame⟩
    rw [UInt8.toNat_ofNat_of_lt' (Nat.lt_of_lt_of_le hlt hsize), Array.getElem?_eq_getElem hlt]
  · refine ⟨v, ?_, .inl rfl⟩
    rw [UInt8.toNat_ofNat_of_lt' hroom]
    simp

/-- Adding a constant appends no code, and the constants stay. -/
theorem Appends.addConstant (h : chunk.addConstant v = (some index, chunk')) :
    chunk.Appends chunk' [] ∧ chunk.constants.toList <+: chunk'.constants.toList := by
  rcases addConstant_some_cases h with ⟨_, -, -, -, rfl⟩ | ⟨-, -, rfl⟩
  · exact ⟨.refl _, List.prefix_refl _⟩
  · exact ⟨⟨by simp, by simp⟩, by simp⟩

/-- A constant of a chunk was there before one was added, or is the one that was added. -/
theorem mem_of_addConstant {index? : Option UInt8} (h : chunk.addConstant v = (index?, chunk'))
    (hu : u ∈ chunk'.constants.toList) : u ∈ chunk.constants.toList ∨ u = v := by
  rcases chunk.addConstant_cases v with ⟨_, -, -, heq⟩ | ⟨-, -, heq⟩ | ⟨-, -, heq⟩ <;>
    obtain ⟨-, rfl⟩ := Prod.mk.inj (heq.symm.trans h)
  · exact .inl hu
  · rwa [Array.toList_push, List.mem_append, List.mem_singleton] at hu
  · exact .inl hu

/-- Adds constants one after the other. -/
def addConstants (chunk : Chunk) (values : List Value) : Chunk :=
  values.foldl (fun chunk v => (chunk.addConstant v).2) chunk

/-- Constants that are added stand behind those that are there. -/
theorem constants_addConstants (chunk : Chunk) (values : List Value) :
    chunk.constants.toList <+: (chunk.addConstants values).constants.toList := by
  induction values generalizing chunk with
  | nil => exact List.prefix_refl _
  | cons v values ih => exact (chunk.constants_addConstant v).trans (ih _)

/-- What an index names stays when constants are added. -/
theorem constant?_addConstants (h : chunk.constant? index = some u) (values : List Value) :
    (chunk.addConstants values).constant? index = some u := by
  obtain ⟨more, hmore⟩ := chunk.constants_addConstants values
  rw [constant?, ← Array.getElem?_toList] at h ⊢
  rw [← hmore, List.getElem?_append_left (List.getElem?_eq_some_iff.1 h).1, h]

/-- The index that is given for a value names the value or a constant that can stand for it. -/
theorem exists_constant? (hsize : chunk.constants.size ≤ constantLimit)
    (hindex : (chunk.addConstant v).1 = some index) :
    ∃ u, (u = v ∨ u.sameConstant v = true) ∧ (chunk.addConstant v).2.constant? index = some u := by
  rcases chunk.addConstant_cases v with ⟨i, hlt, hsame, heq⟩ | ⟨-, hroom, heq⟩ | ⟨-, -, heq⟩ <;>
    rw [heq] at hindex ⊢
  · obtain rfl := Option.some.inj hindex
    refine ⟨chunk.constants[i], .inr hsame, ?_⟩
    rw [constant?, UInt8.toNat_ofNat_of_lt' (Nat.lt_of_lt_of_le hlt hsize)]
    exact Array.getElem?_eq_getElem hlt
  · obtain rfl := Option.some.inj hindex
    refine ⟨v, .inl rfl, ?_⟩
    rw [constant?, UInt8.toNat_ofNat_of_lt' hroom]
    simp
  · cases hindex

/-- The constants are not too many, and none can stand for a later one. -/
structure Apart (chunk : Chunk) : Prop where
  /-- An index can name each of them. -/
  size_le : chunk.constants.size ≤ constantLimit
  /-- None can stand for a later one. -/
  pairwise : chunk.constants.toList.Pairwise fun u v => u.sameConstant v = false

theorem apart_empty (name : String) : (empty name).Apart :=
  ⟨Nat.zero_le _, .nil⟩

namespace Apart

/-- Adding a constant keeps the constants of a chunk apart. -/
theorem addConstant (h : chunk.Apart) (v : Value) : (chunk.addConstant v).2.Apart := by
  rcases chunk.addConstant_cases v with ⟨i, -, -, heq⟩ | ⟨hlacks, hroom, heq⟩ | ⟨-, -, heq⟩ <;>
    rw [heq]
  · exact h
  · refine ⟨?_, ?_⟩
    · rw [Array.size_push]
      exact hroom
    · rw [Array.toList_push, List.pairwise_append]
      refine ⟨h.pairwise, List.pairwise_singleton _ _, fun u hu w hw => ?_⟩
      rw [List.mem_singleton.1 hw]
      exact hlacks u hu
  · exact h

/-- Adding any number of constants keeps them apart. -/
theorem addConstants (h : chunk.Apart) (values : List Value) :
    (chunk.addConstants values).Apart := by
  induction values generalizing chunk with
  | nil => exact h
  | cons v values ih => exact ih (h.addConstant v)

/-- No index is given just if there is no room and no constant that can stand for the value. -/
theorem addConstant_eq_none_iff (h : chunk.Apart) :
    (chunk.addConstant v).1 = none ↔ chunk.constants.size = constantLimit ∧ chunk.Lacks v := by
  rcases chunk.addConstant_cases v with ⟨i, hlt, hsame, heq⟩ | ⟨-, hroom, heq⟩ |
    ⟨hlacks, hfull, heq⟩ <;>
    rw [heq]
  · refine iff_of_false (by simp) fun ⟨_, hlacks⟩ => ?_
    have hdiffers := hlacks chunk.constants[i] (by simp)
    rw [hsame] at hdiffers
    cases hdiffers
  · exact iff_of_false (by simp) fun ⟨hfull, _⟩ => Nat.ne_of_lt hroom hfull
  · exact iff_of_true rfl ⟨Nat.le_antisymm h.size_le hfull, hlacks⟩

end Apart

/-- What holds of the constants of a chunk, and of the next one that is added. -/
structure Pool (chunk : Chunk) : Prop where
  /-- There are not too many constants. -/
  size_le : chunk.constants.size ≤ 256
  /-- No constant can stand for a later one. -/
  pairwise : chunk.constants.toList.Pairwise fun u v => u.sameConstant v = false
  /-- The index that is given for a value names the value or a constant that can stand for it, the
  same one whatever is added after it. -/
  names : ∀ {v : Value} {index : UInt8}, (chunk.addConstant v).1 = some index →
    ∃ u, (u = v ∨ u.sameConstant v = true) ∧
      ∀ more, ((chunk.addConstant v).2.addConstants more).constant? index = some u
  /-- No index is given just if there is no room and no constant that can stand for the value. -/
  refuses : ∀ v : Value, (chunk.addConstant v).1 = none ↔
    chunk.constants.size = 256 ∧ ∀ u ∈ chunk.constants.toList, u.sameConstant v = false
  /-- A value that gets no index changes nothing. -/
  unchanged : ∀ v : Value, (chunk.addConstant v).1 = none → (chunk.addConstant v).2 = chunk

/-- **The pool of constants is stable and has no duplicates**, whatever is added to a new chunk. -/
theorem pool_addConstants (name : String) (values : List Value) :
    ((empty name).addConstants values).Pool := by
  have h : ((empty name).addConstants values).Apart := (apart_empty name).addConstants values
  generalize (empty name).addConstants values = chunk at h
  refine ⟨h.size_le, h.pairwise, fun hindex => ?_, fun v => h.addConstant_eq_none_iff,
    fun v hnone => ?_⟩
  · obtain ⟨u, hu, hnames⟩ := exists_constant? h.size_le hindex
    exact ⟨u, hu, constant?_addConstants hnames⟩
  · rcases chunk.addConstant_cases v with ⟨i, -, -, heq⟩ | ⟨-, -, heq⟩ | ⟨-, -, heq⟩ <;>
      rw [heq] at hnone ⊢
    cases hnone

/-- What is not a number is added anew each time, and the indices before it stay. -/
example : ((empty "main").addConstants
  [.number (0 / 0), .int 1, .number (0 / 0), .number 1]).constants.size
    = 4 := by decide +kernel

end Chunk

/-! ## Constants that stand for values -/

namespace Value

variable {u v : Value}

/-- The value at a position: the elements to go to, from the outermost array on. -/
def at? (v : Value) : List Nat → Option Value
  | [] => some v
  | i :: path =>
    match v with
    | .array vs => vs[i]?.bind (·.at? path)
    | _ => none

/-- An integer and the number that is exactly the integer, in either order. -/
inductive Mixed : Value → Value → Prop
  | int {i : Int64} {x : Float} (h : intEqualsNumber i x = true) : Mixed (.int i) (.number x)
  | number {i : Int64} {x : Float} (h : intEqualsNumber i x = true) : Mixed (.number x) (.int i)

/-- Two values have the same positions, with values of the same kind at each of them, except that
within arrays an integer may stand where the other value has the number that is exactly the
integer. -/
def Resembles (u v : Value) : Prop :=
  ∀ path, Option.Rel (fun a b => a.kind.name = b.kind.name ∨ path ≠ [] ∧ a.Mixed b)
    (u.at? path) (v.at? path)

/-- Equal values are of one kind, unless they are an integer and a number. -/
theorem kind_eq_or_mixed (h : u.equals v = true) : u.kind = v.kind ∨ u.Mixed v := by
  unfold equals at h
  split at h
  case h_5 => exact .inr (.int h)
  case h_6 => exact .inr (.number h)
  case h_15 => cases h
  all_goals exact .inl rfl

/-- Lists are equal element by element. -/
theorem forall₂_of_equalsList : ∀ {us vs : List Value}, equalsList us vs = true →
    List.Forall₂ (fun a b => a.equals b = true) us vs
  | [], [], _ => .nil
  | [], _ :: _, h | _ :: _, [], h => by simp [equalsList] at h
  | a :: us, b :: vs, h => by
    rw [equalsList, Bool.and_eq_true] at h
    exact .cons h.1 (forall₂_of_equalsList h.2)

/-- **Equal values are equal at each position.** -/
theorem equals_at? (h : u.equals v = true) (path : List Nat) :
    Option.Rel (fun a b => a.equals b = true) (u.at? path) (v.at? path) := by
  induction path generalizing u v with
  | nil => exact .some h
  | cons i path ih =>
    cases u with
    | array us =>
      cases v with
      | array vs =>
        rw [equals] at h
        have hall := forall₂_of_equalsList h
        show Option.Rel _ (us[i]?.bind (·.at? path)) (vs[i]?.bind (·.at? path))
        by_cases hi : i < us.length
        · have hi' : i < vs.length := hall.length_eq ▸ hi
          rw [List.getElem?_eq_getElem hi, List.getElem?_eq_getElem hi']
          exact ih (hall.get hi hi')
        · have hi' : ¬i < vs.length := hall.length_eq ▸ hi
          rw [List.getElem?_eq_none (Nat.le_of_not_lt hi),
            List.getElem?_eq_none (Nat.le_of_not_lt hi')]
          exact .none
      | _ => simp [equals] at h
    | _ =>
      cases v <;> first
        | exact .none
        | simp [equals] at h

/-- Every value resembles itself. -/
theorem Resembles.refl (v : Value) : v.Resembles v := by
  intro path
  cases v.at? path with
  | none => exact .none
  | some a => exact .some (.inl rfl)

/-- **A constant that can stand for a value resembles it.** -/
theorem Resembles.of_sameConstant (h : u.sameConstant v = true) : u.Resembles v := by
  have hequals : u.equals v = true := by
    cases u <;> cases v <;> first
      | exact h
      | simp [sameConstant] at h
  have houter : ¬u.Mixed v := by
    intro hmixed
    cases hmixed <;> simp [sameConstant] at h
  intro path
  cases path with
  | nil => exact .some (.inl (congrArg Kind.name ((kind_eq_or_mixed hequals).resolve_right houter)))
  | cons i path =>
    have hat := equals_at? hequals (i :: path)
    revert hat
    generalize u.at? (i :: path) = a?
    generalize v.at? (i :: path) = b?
    rintro (hab | -)
    · exact .some ((kind_eq_or_mixed hab).imp (congrArg Kind.name) fun hmixed => ⟨by simp, hmixed⟩)
    · exact .none

/-- **Merged constants keep their shape, and their kinds outside of arrays.**  What the index of a
value names has the same positions, with values of the same kind at each of them, except that within
an array an integer and the number that is exactly the integer may stand for each other; and so have
any two constants of which one can stand for the other. -/
theorem sameConstant_resembles (v : Value) :
    (∀ u : Value, u.sameConstant v = true → u.Resembles v) ∧
      ∀ (chunk : Chunk) (index : UInt8), chunk.constants.size ≤ 256 →
        (chunk.addConstant v).1 = some index →
        ∃ u, (chunk.addConstant v).2.constant? index = some u ∧ u.Resembles v := by
  refine ⟨fun u => Resembles.of_sameConstant, fun chunk index hsize hindex => ?_⟩
  obtain ⟨u, hu, hnames⟩ := Chunk.exists_constant? hsize hindex
  refine ⟨u, hnames, ?_⟩
  rcases hu with rfl | hsame
  · exact .refl u
  · exact .of_sameConstant hsame

/-- An array of a number takes the place of an array of the integer. -/
theorem sameConstant_resembles_nested :
    ∃ u, ((Chunk.empty "main").addConstants [.array [.number 1]]).constants.size ≤ 256 ∧
      (((Chunk.empty "main").addConstants [.array [.number 1]]).addConstant (.array [.int 1])).1
        = some 0 ∧
      (((Chunk.empty "main").addConstants [.array [.number 1]]).addConstant
        (.array [.int 1])).2.constant? 0 = some u ∧ u.Resembles (.array [.int 1]) := by
  have hsize : ((Chunk.empty "main").addConstants [.array [.number 1]]).constants.size ≤ 256 := by
    decide +kernel
  have hindex : (((Chunk.empty "main").addConstants [.array [.number 1]]).addConstant
      (.array [.int 1])).1 = some 0 := by decide +kernel
  obtain ⟨u, hu, hresembles⟩ := (sameConstant_resembles _).2 _ _ hsize hindex
  exact ⟨u, hsize, hindex, hu, hresembles⟩

/-- Within arrays constants do not keep the kind of their numbers: an array of an integer can stand
for an array of a number. -/
theorem sameConstant_mixes :
    (array [int 1]).sameConstant (array [number 1]) = true ∧
      ((array [int 1]).at? [0]).map (·.kind.name) = some "int" ∧
      ((array [number 1]).at? [0]).map (·.kind.name) = some "number" := by
  refine ⟨by decide +kernel, rfl, rfl⟩

end Value

end ScriptVM
