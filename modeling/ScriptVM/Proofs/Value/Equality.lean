/-
# Equality of values

The language's equality is symmetric and transitive, and a value equals itself unless something in
it is not a number (`Value.HasNaN`), at whatever depth of its arrays.

An integer equals a floating point number iff that is exactly the integer.  A chain of the two kinds
is therefore a chain of equal rational numbers: two integers that equal one number are the same, and
two numbers that equal one integer are equal.

Main statement: `Value.equality`.
-/
import ScriptVM.Proofs.Decimal.Rational

namespace ScriptVM.Value

/-- The values in which something is not a number. -/
inductive HasNaN : Value → Prop
  /-- What is not a number itself. -/
  | number {x : Float} (h : x.isNaN = true) : HasNaN (.number x)
  /-- An array with such an element. -/
  | element {elements : List Value} {v : Value} (hv : v ∈ elements) (h : HasNaN v) :
    HasNaN (.array elements)

theorem hasNaN_number_iff {x : Float} : HasNaN (.number x) ↔ x.isNaN = true :=
  ⟨fun h => by cases h; assumption, .number⟩

theorem hasNaN_array_iff {elements : List Value} :
    HasNaN (.array elements) ↔ ∃ v ∈ elements, HasNaN v :=
  ⟨fun h => by cases h with | element hv h => exact ⟨_, hv, h⟩, fun ⟨_, hv, h⟩ => .element hv h⟩

/-! ## Integers and numbers -/

/-- **An integer equals a number that is exactly the integer.** -/
theorem intEqualsNumber_iff {i : Int64} {x : Float} :
    intEqualsNumber i x = true ↔ Decimal.rational? x = some (i.toInt : ℚ) := by
  rw [intEqualsNumber, decide_eq_true_iff, Decimal.exactInt?_eq_some_iff]

/-- Integers that equal one number are the same. -/
theorem eq_of_intEqualsNumber {i j : Int64} {x : Float} (hi : intEqualsNumber i x = true)
    (hj : intEqualsNumber j x = true) : i = j := by
  have h := (intEqualsNumber_iff.1 hi).symm.trans (intEqualsNumber_iff.1 hj)
  exact Int64.toInt_inj.1 (Int.cast_injective (Option.some.inj h))

/-- Numbers that equal one integer are equal. -/
theorem beq_of_intEqualsNumber {i : Int64} {x y : Float} (hx : intEqualsNumber i x = true)
    (hy : intEqualsNumber i y = true) : (x == y) = true :=
  Decimal.beq_of_rational? (intEqualsNumber_iff.1 hx) (intEqualsNumber_iff.1 hy)

/-- Equal numbers equal the same integers. -/
theorem intEqualsNumber_congr {i : Int64} {x y : Float} (h : (x == y) = true) :
    intEqualsNumber i x = intEqualsNumber i y := by
  rw [intEqualsNumber, intEqualsNumber, Decimal.exactInt?_congr h]

/-! ## A partial equivalence -/

mutual

/-- Equality is symmetric. -/
theorem equals_symm : ∀ a b : Value, a.equals b = b.equals a
  | .array as, b => by
    cases b with
    | array bs =>
      rw [equals, equals]
      exact equalsList_symm as bs
    | _ => simp [equals]
  | .number x, b => by
    cases b with
    | number y => exact Decimal.beq_comm x y
    | _ => simp [equals]
  | .nil, b | .bool _, b | .int _, b | .string _, b | .functionRef _, b | .closureRef _, b
  | .classRef _, b | .instanceRef _, b | .bound _ _, b | .native _, b => by
    cases b <;> simp [equals, BEq.comm]

/-- Equality of lists of values is symmetric. -/
theorem equalsList_symm : ∀ as bs : List Value, equalsList as bs = equalsList bs as
  | [], [] => rfl
  | [], _ :: _ | _ :: _, [] => by simp [equalsList]
  | a :: as, b :: bs => by
    rw [equalsList, equalsList, equals_symm a b, equalsList_symm as bs]

end

mutual

/-- Equality is transitive. -/
theorem equals_trans : ∀ {a b c : Value}, a.equals b = true → b.equals c = true → a.equals c = true
  | .array as, b, c, hab, hbc => by
    cases b with
    | array bs =>
      cases c with
      | array cs =>
        rw [equals] at hab hbc ⊢
        exact equalsList_trans hab hbc
      | _ => simp [equals] at hbc
    | _ => simp [equals] at hab
  | .int i, b, c, hab, hbc => by
    cases b with
    | int j =>
      obtain rfl : i = j := by simpa [equals] using hab
      exact hbc
    | number x =>
      cases c with
      | int j => exact beq_iff_eq.2 (eq_of_intEqualsNumber hab hbc)
      | number y => exact (intEqualsNumber_congr hbc).symm.trans hab
      | _ => simp [equals] at hbc
    | _ => simp [equals] at hab
  | .number x, b, c, hab, hbc => by
    cases b with
    | int j =>
      cases c with
      | int k =>
        obtain rfl : j = k := by simpa [equals] using hbc
        exact hab
      | number y => exact beq_of_intEqualsNumber hab hbc
      | _ => simp [equals] at hbc
    | number y =>
      cases c with
      | int k => exact (intEqualsNumber_congr hab).trans hbc
      | number z => exact Decimal.beq_trans hab hbc
      | _ => simp [equals] at hbc
    | _ => simp [equals] at hab
  | .nil, b, c, hab, hbc | .bool _, b, c, hab, hbc | .string _, b, c, hab, hbc
  | .functionRef _, b, c, hab, hbc | .closureRef _, b, c, hab, hbc | .classRef _, b, c, hab, hbc
  | .instanceRef _, b, c, hab, hbc | .bound _ _, b, c, hab, hbc | .native _, b, c, hab, hbc => by
    -- On the other kinds equal values are the same.
    cases b <;> simp [equals] at hab
    simpa [hab] using hbc

/-- Equality of lists of values is transitive. -/
theorem equalsList_trans : ∀ {as bs cs : List Value}, equalsList as bs = true →
    equalsList bs cs = true → equalsList as cs = true
  | [], bs, cs, hab, hbc => by
    cases bs with
    | nil => exact hbc
    | cons _ _ => simp [equalsList] at hab
  | a :: as, bs, cs, hab, hbc => by
    cases bs with
    | nil => simp [equalsList] at hab
    | cons b bs =>
      cases cs with
      | nil => simp [equalsList] at hbc
      | cons c cs =>
        rw [equalsList, Bool.and_eq_true] at hab hbc ⊢
        exact ⟨equals_trans hab.1 hbc.1, equalsList_trans hab.2 hbc.2⟩

end

mutual

/-- **A value equals itself** iff nothing in it is "not a number". -/
theorem equals_self_iff : ∀ a : Value, a.equals a = true ↔ ¬a.HasNaN
  | .array as => by
    rw [equals, equalsList_self_iff as, hasNaN_array_iff]
    simp
  | .number x => by
    rw [equals, Decimal.beq_self_iff, hasNaN_number_iff]
  | .nil | .bool _ | .int _ | .string _ | .functionRef _ | .closureRef _ | .classRef _
  | .instanceRef _ | .bound _ _ | .native _ =>
    iff_of_true (by simp [equals]) fun h => by cases h

/-- A list of values equals itself just if each of its values does. -/
theorem equalsList_self_iff : ∀ as : List Value, equalsList as as = true ↔ ∀ a ∈ as, ¬a.HasNaN
  | [] => by simp [equalsList]
  | a :: as => by
    rw [equalsList, Bool.and_eq_true, equals_self_iff a, equalsList_self_iff as,
      List.forall_mem_cons]

end

/-- **Equality is a partial equivalence.**  It is symmetric and transitive, the values in which
something is not a number are the only ones that do not equal themselves, and an integer equals a
number just if that is exactly the integer, so that integers which equal one number are the same. -/
theorem equality :
    (∀ a b : Value, a.equals b = true → b.equals a = true) ∧
      (∀ a b c : Value, a.equals b = true → b.equals c = true → a.equals c = true) ∧
      (∀ a : Value, a.equals a = true ↔ ¬a.HasNaN) ∧
      (∀ (i : Int64) (x : Float),
        (int i).equals (number x) = true ↔ Decimal.rational? x = some (i.toInt : ℚ)) ∧
      ∀ (i j : Int64) (x : Float), (int i).equals (number x) = true →
        (int j).equals (number x) = true → i = j :=
  ⟨fun a b h => (equals_symm a b).symm.trans h, fun _ _ _ => equals_trans, equals_self_iff,
    fun _ _ => intEqualsNumber_iff, fun _ _ _ => eq_of_intEqualsNumber⟩

/-- Arrays of numbers of both kinds, with both zeros. -/
theorem equality_mixed :
    (array [int 0, array [number 9007199254740992]]).equals
        (array [number (-0), array [int 9007199254740992]]) = true ∧
      (array [number (-0), array [int 9007199254740992]]).equals
        (array [number 0, array [number 9007199254740992]]) = true ∧
      (array [int 0, array [number 9007199254740992]]).equals
        (array [number 0, array [number 9007199254740992]]) = true := by
  have hfirst : (array [int 0, array [number 9007199254740992]]).equals
      (array [number (-0), array [int 9007199254740992]]) = true := by decide +kernel
  have hsecond : (array [number (-0), array [int 9007199254740992]]).equals
      (array [number 0, array [number 9007199254740992]]) = true := by decide +kernel
  exact ⟨hfirst, hsecond, equality.2.1 _ _ _ hfirst hsecond⟩

/-- Equality is exact: the integer next to `2 ^ 53` does not equal the number. -/
example : (int 9007199254740993).equals (number 9007199254740992) = false := by decide +kernel

end ScriptVM.Value
