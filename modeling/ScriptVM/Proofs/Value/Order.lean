/-
# Comparisons of values

An inclusive comparison is computed as the denial of the strict one the other way round, `a <= b` as
"not `a > b`".  An integer is rounded for a comparison with a floating point number, but not for
equality with one.  So an inclusive comparison gives true for two values that are neither the one
way round nor the other and not equal either (`Value.Incomparable`).  There are two kinds of such
pairs (`Value.Unordered`): one of two numbers is not a number, or an integer beyond `2 ^ 53` is
rounded to a number that it does not equal.

Main statements: `Value.incomparable_iff` and `Machine.inclusive`.
-/
import Mathlib.Data.String.Basic
import ScriptVM.Proofs.Decimal.Conversion
import ScriptVM.Proofs.Machine.Execution
import ScriptVM.Proofs.Value.Equality

namespace ScriptVM

/-! ## Floating point numbers -/

namespace Decimal

variable {x y : Float}

/-- One number is greater than another just if it compares so. -/
theorem gt_iff_order? : x > y ↔ order? x y = some .gt := by
  rw [gt_iff_lt, lt_iff_order?, order?_swap x y]
  cases order? x y with
  | none => simp
  | some o => cases o <;> simp

/-- Two numbers that are not in order are equal, or one of them is not a number. -/
theorem not_lt_and_not_gt_iff :
    ¬x < y ∧ ¬x > y ↔ (x.isNaN = true ∨ y.isNaN = true) ∨ (x == y) = true := by
  rw [lt_iff_order?, gt_iff_order?, beq_iff_order?, ← order?_eq_none_iff]
  cases order? x y with
  | none => simp
  | some o => cases o <;> simp

end Decimal

namespace Value

variable {a b v : Value} {op : Operator} {ints : Int → Int → Bool} {texts : String → String → Bool}
  {floats : Float → Float → Bool}

/-! ## Pairs that can be compared -/

/-- Only integers and numbers count as floating point numbers. -/
theorem eq_of_toFloat?_eq_some {x : Float} (h : v.toFloat? = some x) :
    (∃ i, v = .int i) ∨ v = .number x := by
  cases v with
  | int i => exact .inl ⟨i, rfl⟩
  | number y => exact .inr (by rw [Option.some.inj h])
  | _ => cases h

/-- What can be compared: two integers, two texts, or numbers of which not both are integers. -/
theorem compare_cases (h : compare op ints texts floats a b = .ok v) :
    (∃ i j, a = .int i ∧ b = .int j) ∨ (∃ s t, a = .string s ∧ b = .string t) ∨
      (∃ i x, a = .int i ∧ b = .number x) ∨ (∃ x i, a = .number x ∧ b = .int i) ∨
      ∃ x y, a = .number x ∧ b = .number y := by
  unfold compare at h
  split at h
  · exact .inl ⟨_, _, rfl, rfl⟩
  · exact .inr (.inl ⟨_, _, rfl, rfl⟩)
  · rename_i hints htexts
    split at h
    · rename_i x y hx hy
      rcases eq_of_toFloat?_eq_some hx with ⟨i, rfl⟩ | rfl <;>
        rcases eq_of_toFloat?_eq_some hy with ⟨j, rfl⟩ | rfl
      · exact absurd rfl (hints i j rfl)
      · exact .inr (.inr (.inl ⟨_, _, rfl, rfl⟩))
      · exact .inr (.inr (.inr (.inl ⟨_, _, rfl, rfl⟩)))
      · exact .inr (.inr (.inr (.inr ⟨_, _, rfl, rfl⟩)))
    · cases h

/-- The outcomes of the strict comparisons of two values: at most one of them is true, and none is
if the values are equal. -/
structure Compares (a b : Value) (lt gt : Bool) : Prop where
  /-- The first comparison. -/
  less : a.less b = .ok (.bool lt)
  /-- The other one. -/
  greater : a.greater b = .ok (.bool gt)
  /-- They are not both true. -/
  oneWay : ¬(lt = true ∧ gt = true)
  /-- Equal values are in neither order. -/
  apart : a.equals b = true → lt = false ∧ gt = false

/-- Values that are compared as floating point numbers. -/
theorem compares_floats {x y : Float} (hless : a.less b = .ok (.bool (x < y)))
    (hgreater : a.greater b = .ok (.bool (x > y)))
    (hequal : a.equals b = true → (x == y) = true) : Compares a b (x < y) (x > y) := by
  refine ⟨hless, hgreater, fun ⟨hlt, hgt⟩ => ?_, fun h => ?_⟩
  · have hlt := Decimal.lt_iff_order?.1 (of_decide_eq_true hlt)
    have hgt := Decimal.gt_iff_order?.1 (of_decide_eq_true hgt)
    cases hlt.symm.trans hgt
  · have hnot := Decimal.not_lt_and_not_gt_iff.2 (.inr (hequal h))
    exact ⟨decide_eq_false hnot.1, decide_eq_false hnot.2⟩

/-- An integer equals what it is rounded to, if it equals a number at all. -/
theorem beq_ofInt_of_intEqualsNumber {i : Int64} {x : Float} (h : intEqualsNumber i x = true) :
    (Float.ofInt i.toInt == x) = true := by
  have hx := intEqualsNumber_iff.1 h
  have hsize : i.toInt.natAbs ≤ 2 ^ 63 := by
    have hmin := i.le_toInt
    have hmax := i.toInt_lt
    omega
  exact Decimal.beq_of_rational? (Decimal.rational?_ofInt (Decimal.short_of_rational? hx hsize)) hx

/-- **Values that can be compared** are less, greater or neither. -/
theorem exists_compares (h : compare op ints texts floats a b = .ok v) :
    ∃ lt gt, Compares a b lt gt := by
  rcases compare_cases h with
    ⟨i, j, rfl, rfl⟩ | ⟨s, t, rfl, rfl⟩ | ⟨i, x, rfl, rfl⟩ | ⟨x, i, rfl, rfl⟩ | ⟨x, y, rfl, rfl⟩
  · refine ⟨_, _, rfl, rfl, ?_, fun h => ?_⟩
    · simp only [decide_eq_true_iff]
      omega
    · obtain rfl : i = j := by simpa [equals] using h
      simp
  · refine ⟨_, _, rfl, rfl, ?_, fun h => ?_⟩
    · simp only [decide_eq_true_iff]
      exact fun h => lt_asymm h.1 h.2
    · obtain rfl : s = t := by simpa [equals] using h
      simp
  · exact ⟨_, _, compares_floats rfl rfl beq_ofInt_of_intEqualsNumber⟩
  · exact ⟨_, _, compares_floats rfl rfl fun h =>
      (Decimal.beq_comm _ _).trans (beq_ofInt_of_intEqualsNumber h)⟩
  · exact ⟨_, _, compares_floats rfl rfl id⟩

/-! ## Pairs without an order -/

/-- Neither of two values is less than the other, and they are not equal. -/
def Incomparable (a b : Value) : Prop :=
  a.less b = .ok (.bool false) ∧ a.greater b = .ok (.bool false) ∧ a.equals b = false

/-- The pairs of numbers without an order. -/
inductive Unordered (a b : Value) : Prop
  /-- One of the two is not a number. -/
  | notNumber {x y : Float} (ha : a.toFloat? = some x) (hb : b.toFloat? = some y)
    (h : a.HasNaN ∨ b.HasNaN)
  /-- An integer beyond `2 ^ 53` is rounded to a number, but is not that number. -/
  | rounded {i : Int64} {x : Float}
    (hpair : a = .int i ∧ b = .number x ∨ a = .number x ∧ b = .int i)
    (hbeyond : 2 ^ 53 < i.toInt.natAbs) (hround : (Float.ofInt i.toInt == x) = true)
    (hexact : Decimal.rational? x ≠ some (i.toInt : ℚ))

theorem not_hasNaN_of_equals (h : a.equals b = true) : ¬a.HasNaN ∧ ¬b.HasNaN := by
  have hsymm := (equals_symm b a).trans h
  exact ⟨(equals_self_iff a).1 (equals_trans h hsymm), (equals_self_iff b).1 (equals_trans hsymm h)⟩

/-- An integer that is no greater than `2 ^ 53` equals what it is rounded to. -/
theorem intEqualsNumber_of_beq_ofInt {i : Int64} {x : Float} (hi : i.toInt.natAbs ≤ 2 ^ 53)
    (h : (Float.ofInt i.toInt == x) = true) : intEqualsNumber i x = true := by
  rw [← intEqualsNumber_congr h, intEqualsNumber_iff]
  exact Decimal.rational?_ofInt (Decimal.short_of_le hi)

/-- An integer and a number without an order: the number is none, or it is what the integer is
rounded to. -/
theorem isNaN_or_rounded {i : Int64} {x : Float} (hne : intEqualsNumber i x = false)
    (h : ¬Float.ofInt i.toInt < x ∧ ¬Float.ofInt i.toInt > x) : x.isNaN = true ∨
      2 ^ 53 < i.toInt.natAbs ∧ (Float.ofInt i.toInt == x) = true ∧
        Decimal.rational? x ≠ some (i.toInt : ℚ) := by
  rcases Decimal.not_lt_and_not_gt_iff.1 h with (hi | hx) | hround
  · rw [Decimal.isNaN_ofInt] at hi
    cases hi
  · exact .inl hx
  · refine .inr ⟨?_, hround, ?_⟩
    · by_contra hle
      rw [intEqualsNumber_of_beq_ofInt (by omega) hround] at hne
      cases hne
    · rwa [Ne, ← intEqualsNumber_iff, Bool.not_eq_true]

/-- Values that are neither less, greater nor equal are those without an order. -/
theorem Incomparable.unordered (h : a.Incomparable b) : a.Unordered b := by
  obtain ⟨hless, hgreater, hne⟩ := h
  rcases compare_cases hless with
    ⟨i, j, rfl, rfl⟩ | ⟨s, t, rfl, rfl⟩ | ⟨i, x, rfl, rfl⟩ | ⟨x, i, rfl, rfl⟩ | ⟨x, y, rfl, rfl⟩ <;>
    simp only [less, greater, compare, toFloat?, Except.ok.injEq, bool.injEq,
      decide_eq_false_iff_not] at hless hgreater
  · have hij : i.toInt = j.toInt := by omega
    rw [equals, Int64.toInt_inj.1 hij, beq_self_eq_true] at hne
    cases hne
  · have hst : s = t := le_antisymm (not_lt.1 hgreater) (not_lt.1 hless)
    rw [equals, hst, beq_self_eq_true] at hne
    cases hne
  · rcases isNaN_or_rounded hne ⟨hless, hgreater⟩ with hx | ⟨hbeyond, hround, hexact⟩
    · exact .notNumber rfl rfl (.inr (.number hx))
    · exact .rounded (.inl ⟨rfl, rfl⟩) hbeyond hround hexact
  · rcases isNaN_or_rounded hne ⟨hgreater, hless⟩ with hx | ⟨hbeyond, hround, hexact⟩
    · exact .notNumber rfl rfl (.inl (.number hx))
    · exact .rounded (.inr ⟨rfl, rfl⟩) hbeyond hround hexact
  · rcases Decimal.not_lt_and_not_gt_iff.1 ⟨hless, hgreater⟩ with (hx | hy) | hequal
    · exact .notNumber rfl rfl (.inl (.number hx))
    · exact .notNumber rfl rfl (.inr (.number hy))
    · rw [equals, hequal] at hne
      cases hne

/-- Floating point numbers without an order are neither less, greater nor equal. -/
theorem incomparable_floats {x y : Float} (hless : a.less b = .ok (.bool (x < y)))
    (hgreater : a.greater b = .ok (.bool (x > y))) (hne : a.equals b = false)
    (h : (x.isNaN = true ∨ y.isNaN = true) ∨ (x == y) = true) : a.Incomparable b := by
  obtain ⟨hlt, hgt⟩ := Decimal.not_lt_and_not_gt_iff.2 h
  exact ⟨by rw [hless, decide_eq_false hlt], by rw [hgreater, decide_eq_false hgt], hne⟩

/-- Values without an order are neither less, greater nor equal. -/
theorem Unordered.incomparable (h : a.Unordered b) : a.Incomparable b := by
  cases h with
  | @notNumber x y ha hb h =>
    have hne : a.equals b = false := by
      rw [← Bool.not_eq_true]
      intro hequal
      obtain ⟨hna, hnb⟩ := not_hasNaN_of_equals hequal
      exact h.elim hna hnb
    cases a <;> cases b <;> cases ha <;> cases hb
    · rcases h with h | h <;> cases h
    · refine incomparable_floats rfl rfl hne (.inl (.inr ?_))
      rcases h with h | h <;> cases h
      assumption
    · refine incomparable_floats rfl rfl hne (.inl (.inl ?_))
      rcases h with h | h <;> cases h
      assumption
    · refine incomparable_floats rfl rfl hne (.inl ?_)
      exact h.imp hasNaN_number_iff.1 hasNaN_number_iff.1
  | @rounded i x hpair hbeyond hround hexact =>
    have hne : intEqualsNumber i x = false := by
      rwa [← Bool.not_eq_true, intEqualsNumber_iff]
    rcases hpair with ⟨rfl, rfl⟩ | ⟨rfl, rfl⟩
    · exact incomparable_floats rfl rfl hne (.inr hround)
    · exact incomparable_floats rfl rfl hne (.inr ((Decimal.beq_comm _ _).trans hround))

/-- **The pairs that cannot be put in order.** -/
theorem incomparable_iff : a.Incomparable b ↔ a.Unordered b :=
  ⟨Incomparable.unordered, Unordered.incomparable⟩

theorem Compares.incomparable_iff {lt gt : Bool} (h : Compares a b lt gt) :
    a.Incomparable b ↔ lt = false ∧ gt = false ∧ a.equals b = false := by
  rw [Incomparable, h.less, h.greater]
  simp

/-- The denial of a strict comparison. -/
theorem Compares.denied {lt gt : Bool} (h : Compares a b lt gt) :
    ((!gt) = true ↔ lt = true ∨ a.equals b = true ∨ a.Incomparable b) ∧
      ((!lt) = true ↔ gt = true ∨ a.equals b = true ∨ a.Incomparable b) := by
  rw [h.incomparable_iff]
  cases hequal : a.equals b with
  | true =>
    obtain ⟨rfl, rfl⟩ := h.apart hequal
    simp
  | false =>
    have hway := h.oneWay
    cases lt <;> cases gt <;> simp_all

end Value

/-! ## The code of a comparison -/

/-- The instructions behind the two operands of an operator. -/
def TokenKind.instructions? (kind : TokenKind) : Option (List Opcode) :=
  match continuation? kind with
  | some (_, .binary _ ops) => some ops
  | _ => none

/-- The strict comparison that goes with an inclusive one. -/
def TokenKind.strict? : TokenKind → Option (Value → Value → Except ValueError Value)
  | .lessEqual => some Value.less
  | .greaterEqual => some Value.greater
  | _ => none

namespace Exec

/-- `Not` replaces the topmost value by its negation. -/
theorem step_not {values : List Value} {value : Value} {rest : List Frame} {c : ClosureId}
    {ip s : Nat} {r : Resume} {heap : Heap} {globals : Bindings Value} {body : Body}
    (hbody : (heap.functionOf c).body = body) (hop : body.code[ip]? = some Opcode.not.toByte)
    (hroom : values.length < stackLimit) :
    step.Gives ⟨value :: values, ⟨c, ip, s, r⟩ :: rest, heap, globals⟩ none
      ⟨value.not :: values, ⟨c, ip + 1, s, r⟩ :: rest, heap, globals⟩ :=
  gives_step hbody hop <| gives_proceed <| gives_pop.bind <| Gives.bind .pure (gives_push hroom)

end Exec

namespace Machine

/-- Two instructions that succeed are two steps of a run. -/
theorem advance_two {m : Machine} {v v₁ v₂ : View} (hm : m.view = v)
    (hfirst : Exec.step.Gives v none v₁) (hsecond : Exec.step.Gives v₁ none v₂) :
    ∃ m', m.advance 2 = .running m' ∧ m'.view = v₂ := by
  obtain ⟨m₁, hstep, hm₁⟩ := hfirst m hm
  obtain ⟨m₂, hstep', hm₂⟩ := hsecond m₁ hm₁
  refine ⟨m₂, ?_, hm₂⟩
  simp only [advance, hstep, hstep']

variable {kind : TokenKind} {ops : List Opcode} {a b v : Value}
  {strict : Value → Value → Except ValueError Value} {m : Machine} {values : List Value} {f : Frame}
  {rest : List Frame}

/-- A strict comparison and its denial. -/
theorem exists_denied {x : Bool} {op : Opcode}
    {opposite : Value → Value → Except ValueError Value}
    (hexecute : Exec.execute op = Exec.proceed (Exec.applyBinary opposite))
    (hx : opposite a b = .ok (.bool x)) (hvalues : m.values = b :: a :: values)
    (hcalls : m.calls = f :: rest)
    (hcode : [op, .not].map Opcode.toByte <+: (m.heap.functionOf f.closure).body.code.drop f.ip) :
    ∃ m', m.advance 2 = .running m' ∧ m'.values = .bool (!x) :: values ∧
      m'.calls = { f with ip := f.ip + 2 } :: rest ∧ m'.globals = m.globals := by
  obtain ⟨c, ip, s, r⟩ := f
  have hroom : values.length < stackLimit := by
    have hsize : m.stack.size ≤ stackLimit := m.stack.size_le
    rw [m.size_stack, hvalues] at hsize
    simp only [List.length_cons] at hsize
    omega
  obtain ⟨tail, htail⟩ := hcode
  have hbyte : ∀ i, (m.heap.functionOf c).body.code[ip + i]? =
      ([op, Opcode.not].map Opcode.toByte ++ tail)[i]? := by
    intro i
    rw [htail, List.getElem?_drop]
  have hbody : (m.heap.withoutCells.functionOf c).body = (m.heap.functionOf c).body := rfl
  have hview : m.view =
      ⟨b :: a :: values, ⟨c, ip, s, r⟩ :: rest, m.heap.withoutCells, m.globals⟩ := by
    rw [view, hvalues, hcalls]
  obtain ⟨m', hadvance, hm'⟩ := advance_two hview
    (Exec.step_binary hbody (hbyte 0) hexecute hx hroom)
    (Exec.step_not hbody (hbyte 1) hroom)
  obtain ⟨hvalues', hcalls', -, hglobals'⟩ := View.mk.inj hm'
  exact ⟨m', hadvance, hvalues', hcalls', hglobals'⟩

/-- **An inclusive comparison** is true for values of which the strict one is true, for equal
values, and for the numbers that have no order. -/
theorem inclusive (hstrict : kind.strict? = some strict) (hops : kind.instructions? = some ops)
    (hv : strict a b = .ok v) (hvalues : m.values = b :: a :: values) (hcalls : m.calls = f :: rest)
    (hcode : ops.map Opcode.toByte <+: (m.heap.functionOf f.closure).body.code.drop f.ip) :
    ∃ (result : Bool) (m' : Machine), m.advance ops.length = .running m' ∧
      m'.values = .bool result :: values ∧
      (result = true ↔ v = .bool true ∨ a.equals b = true ∨ a.Unordered b) ∧
      (a.Unordered b ↔ a.Incomparable b) := by
  simp only [← Value.incomparable_iff, iff_self, and_true]
  unfold TokenKind.strict? at hstrict
  split at hstrict
  · obtain rfl := Option.some.inj hstrict
    obtain rfl : ops = [.greater, .not] := (Option.some.inj hops).symm
    obtain ⟨lt, gt, hcompares⟩ := Value.exists_compares hv
    obtain rfl := Except.ok.inj (hv.symm.trans hcompares.less)
    obtain ⟨m', hadvance, hvalues', -⟩ := exists_denied rfl hcompares.greater hvalues hcalls hcode
    exact ⟨!gt, m', hadvance, hvalues', by rw [hcompares.denied.1, Value.bool.injEq]⟩
  · obtain rfl := Option.some.inj hstrict
    obtain rfl : ops = [.less, .not] := (Option.some.inj hops).symm
    obtain ⟨lt, gt, hcompares⟩ := Value.exists_compares hv
    obtain rfl := Except.ok.inj (hv.symm.trans hcompares.greater)
    obtain ⟨m', hadvance, hvalues', -⟩ := exists_denied rfl hcompares.less hvalues hcalls hcode
    exact ⟨!lt, m', hadvance, hvalues', by rw [hcompares.denied.2, Value.bool.injEq]⟩
  · cases hstrict

/-- A machine that has two values on the stack and is about to run instructions. -/
def holding (a b : Value) (ops : List Opcode) : Machine :=
  { new [] .reliable 0 with
    heap := { Heap.empty with
      functions := #[⟨"", 0, 0, .script, ⟨"", (ops.map Opcode.toByte).toArray, #[], #[]⟩⟩]
      closures := #[⟨⟨0⟩, #[]⟩] }
    stack := ⟨#[a, b], show 2 ≤ stackLimit by decide⟩
    frames := ⟨#[⟨⟨0⟩, 0, 0, .finish⟩], by decide⟩ }

/-- An integer is less than a number. -/
theorem inclusive_less :
    ∃ m', (holding (.int 1) (.number 2) [.greater, .not]).advance 2 = .running m' ∧
      m'.values = [.bool true] := by
  have hless : Value.less (.int 1) (.number 2) = .ok (.bool true) := by
    have hlt : decide (Float.ofInt (1 : Int64).toInt < 2) = true := by decide +kernel
    exact congrArg (fun x => Except.ok (Value.bool x)) hlt
  obtain ⟨result, m', hadvance, hvalues, hresult, -⟩ :=
    inclusive (show TokenKind.strict? .lessEqual = some Value.less from rfl) rfl hless
      (m := holding (.int 1) (.number 2) [.greater, .not]) rfl rfl ⟨[], rfl⟩
  obtain rfl := hresult.2 (.inl rfl)
  exact ⟨m', hadvance, hvalues⟩

end Machine

/-- **An inclusive comparison can be true for values without an order**: the integer is rounded to
the number, so it is not greater, but it is neither less nor equal. -/
theorem inclusive_rounded : ∃ value s',
    (Session.new Native.all .reliable 0).run (.limited 100)
      "print 9007199254740993 < 9007199254740992.0; print 9007199254740993 == 9007199254740992.0;
       print 9007199254740993 <= 9007199254740992.0;" = some (.ok value, s') ∧
    s'.output = "false\nfalse\ntrue\n" := by
  have hchecked : (Session.new Native.all .reliable 0).returns (.limited 100)
      "print 9007199254740993 < 9007199254740992.0; print 9007199254740993 == 9007199254740992.0;
       print 9007199254740993 <= 9007199254740992.0;"
      (fun s' => decide (s'.output = "false\nfalse\ntrue\n")) = true := by
    decide +kernel
  obtain ⟨value, s', hrun, houtput⟩ := Session.exists_of_returns hchecked
  exact ⟨value, s', hrun, of_decide_eq_true houtput⟩

end ScriptVM
