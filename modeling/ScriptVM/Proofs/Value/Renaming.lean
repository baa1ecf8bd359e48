/-
# Values up to renaming

Functions and closures are numbered in the order of their creation, so two machines that do the same
thing may number them differently.  A `Renaming` says which of them stand for each other, and
`Value.Renamed` which values are then the same.  Classes, instances and cells keep their numbers.

The operators do not tell renamed values apart: their outcomes are the same, except where a value is
passed on.

Main statement: `Value.Renamed.equals_eq`.
-/
import ScriptVM.Proofs.Machine.Steps

namespace ScriptVM

/-! ## Renamings -/

/-- Which functions and closures of two machines stand for each other. -/
structure Renaming where
  /-- The functions that stand for each other. -/
  function : FunctionId → FunctionId → Prop
  /-- The closures that stand for each other. -/
  closure : ClosureId → ClosureId → Prop
  /-- Different functions stand for different ones. -/
  function_iff : ∀ {f f' g g'}, function f f' → function g g' → (f = g ↔ f' = g')
  /-- Different closures stand for different ones. -/
  closure_iff : ∀ {c c' d d'}, closure c c' → closure d d' → (c = d ↔ c' = d')

namespace Value

/-- Whether a value refers to nothing that may be renamed. -/
def isFixed : Value → Bool
  | .array _ | .functionRef _ | .closureRef _ | .bound _ _ => false
  | _ => true

/-- Two values that are the same up to a renaming. -/
inductive Renamed (ρ : Renaming) : Value → Value → Prop
  | fixed {v : Value} (h : v.isFixed = true) : Renamed ρ v v
  | array {vs vs' : List Value} (hlength : vs.length = vs'.length)
      (h : ∀ (i : Nat) (hi : i < vs.length) (hi' : i < vs'.length), Renamed ρ vs[i] vs'[i]) :
      Renamed ρ (.array vs) (.array vs')
  | functionRef {f f' : FunctionId} (h : ρ.function f f') :
      Renamed ρ (.functionRef f) (.functionRef f')
  | closureRef {c c' : ClosureId} (h : ρ.closure c c') : Renamed ρ (.closureRef c) (.closureRef c')
  | bound {receiver : InstanceId} {c c' : ClosureId} (h : ρ.closure c c') :
      Renamed ρ (.bound receiver c) (.bound receiver c')

/-- Two constants that are the same: only functions are renamed. -/
inductive Restated (ρ : Renaming) : Value → Value → Prop
  | functionRef {f f' : FunctionId} (h : ρ.function f f') :
      Restated ρ (.functionRef f) (.functionRef f')
  | same {v : Value} (h : v.function? = none) : Restated ρ v v

theorem isFixed_of_isScalar {v : Value} (h : v.isScalar = true) : v.isFixed = true := by
  cases v <;> first | rfl | cases h

namespace Renamed

variable {ρ : Renaming} {v v' w w' : Value} {vs vs' ws ws' : List Value}

/-- An array is renamed element by element. -/
theorem array_iff : Renamed ρ (.array vs) (.array vs') ↔ List.Forall₂ (Renamed ρ) vs vs' := by
  rw [List.forall₂_iff_get]
  constructor
  · intro h
    cases h with
    | fixed h => cases h
    | array hlength h => exact ⟨hlength, fun i hi hi' => h i hi hi'⟩
  · rintro ⟨hlength, h⟩
    exact .array hlength fun i hi hi' => h i hi hi'

/-- What stands for an array is an array. -/
theorem of_array (h : Renamed ρ (.array vs) v') :
    ∃ vs', v' = .array vs' ∧ List.Forall₂ (Renamed ρ) vs vs' := by
  cases h with
  | fixed h => cases h
  | array hlength h => exact ⟨_, rfl, array_iff.1 (.array hlength h)⟩

/-! ## Operators -/

theorem kind_eq (h : v.Renamed ρ v') : v.kind = v'.kind := by
  cases h <;> rfl

theorem isFalsey_eq (h : v.Renamed ρ v') : v.isFalsey = v'.isFalsey := by
  cases h <;> rfl

/-- The outcome of an operator on numbers and texts depends on their kinds otherwise. -/
theorem arithmetic_eq {op : Operator} {ints : Int → Int → Int} {floats : Float → Float → Float}
    (hv : v.Renamed ρ v') (hw : w.Renamed ρ w') :
    arithmetic op ints floats v w = arithmetic op ints floats v' w' := by
  cases hv with
  | fixed h =>
    cases hw with
    | fixed h => rfl
    | _ => cases v <;> rfl
  | _ => cases hw <;> rfl

/-- A comparison does not look at the numbers of functions and closures. -/
theorem compare_eq {op : Operator} {ints : Int → Int → Bool} {texts : String → String → Bool}
    {floats : Float → Float → Bool} (hv : v.Renamed ρ v') (hw : w.Renamed ρ w') :
    compare op ints texts floats v w = compare op ints texts floats v' w' := by
  cases hv with
  | fixed h =>
    cases hw with
    | fixed h => rfl
    | _ => cases v <;> rfl
  | _ => cases hw <;> rfl

/-- Neither does an addition. -/
theorem add_eq (hv : v.Renamed ρ v') (hw : w.Renamed ρ w') : v.add w = v'.add w' := by
  cases hv with
  | fixed h =>
    cases hw with
    | fixed h => rfl
    | _ => cases v <;> rfl
  | _ => cases hw <;> rfl

/-- Neither does a division. -/
theorem divide_eq (hv : v.Renamed ρ v') (hw : w.Renamed ρ w') : v.divide w = v'.divide w' := by
  cases hv with
  | fixed h =>
    cases hw with
    | fixed h => rfl
    | _ => cases v <;> rfl
  | _ => cases hw <;> rfl

theorem negate_eq (h : v.Renamed ρ v') : v.negate = v'.negate := by
  cases h <;> rfl

/-! ## Equality -/

/-- Lists are equal alike if their elements are. -/
theorem equalsList_congr (hvs : vs.length = vs'.length) (hws : List.Forall₂ (Renamed ρ) ws ws')
    (h : ∀ (i : Nat) (hi : i < vs.length) (hi' : i < vs'.length) (w w' : Value),
      w.Renamed ρ w' → vs[i].equals w = vs'[i].equals w') :
    equalsList vs ws = equalsList vs' ws' := by
  induction hws generalizing vs vs' with
  | nil =>
    cases vs <;> cases vs' <;> first | rfl | cases hvs
  | cons hw _ ih =>
    match vs, vs', hvs with
    | [], [], _ => rfl
    | v :: vs, v' :: vs', hvs =>
      have hfirst : v.equals _ = v'.equals _ := h 0 (Nat.zero_lt_succ _) (Nat.zero_lt_succ _) _ _ hw
      rw [equalsList, equalsList, hfirst, ih (Nat.succ.inj hvs) fun i hi hi' =>
        h (i + 1) (Nat.succ_lt_succ hi) (Nat.succ_lt_succ hi')]

/-- **Equality does not tell renamed values apart.** -/
theorem equals_eq (hv : v.Renamed ρ v') (hw : w.Renamed ρ w') : v.equals w = v'.equals w' := by
  induction hv generalizing w w' with
  | @fixed v h =>
    cases hw with
    | fixed h => rfl
    | _ => cases v <;> first | rfl | cases h
  | array hlength _ ih =>
    cases hw with
    | @fixed w h => cases w <;> first | rfl | cases h
    | array hlength' h' =>
      rw [equals, equals]
      refine equalsList_congr hlength (array_iff.1 (.array hlength' h')) fun i hi hi' w w' hw => ?_
      exact ih i hi hi' hw
    | _ => rfl
  | functionRef h =>
    cases hw with
    | @fixed w h => cases w <;> first | rfl | cases h
    | functionRef h' =>
      rw [equals, equals]
      exact Bool.eq_iff_iff.2 (by simpa using ρ.function_iff h h')
    | _ => rfl
  | closureRef h =>
    cases hw with
    | @fixed w h => cases w <;> first | rfl | cases h
    | closureRef h' =>
      rw [equals, equals]
      exact Bool.eq_iff_iff.2 (by simpa using ρ.closure_iff h h')
    | _ => rfl
  | bound h =>
    cases hw with
    | @fixed w h => cases w <;> first | rfl | cases h
    | bound h' =>
      rw [equals, equals]
      exact Bool.eq_iff_iff.2 (by simpa using fun _ => ρ.closure_iff h h')
    | _ => rfl

end Renamed

end Value

end ScriptVM
