/-
# The rational numbers that floating point numbers are

A floating point number that is neither an infinity nor "not a number" is a rational number
`± mantissa · 2 ^ exponent` (`Decimal.rational?`).  The integer that the language compares it with
is exactly that number, and two numbers compare as they do in their parts: they have an order unless
one of them is not a number, and those that are the same rational number are equal.

The parts are the ones that the logic's own floating point numbers are unpacked into
(`Decimal.Binary.decode_eq`), so that what is known about those can be used.

Main statements: `Decimal.exactInt?_eq_some_iff`, `Decimal.order?_eq_none_iff`,
`Decimal.beq_iff_unpack` and `Decimal.beq_of_rational?`.
-/
import Mathlib.Algebra.Order.Field.Power
import Mathlib.Tactic.Linarith
import Mathlib.Tactic.Ring
import ScriptVM.Value.Arithmetic

namespace ScriptVM.Decimal

open Float.Model (UnpackedFloat Format)
open Float.Model.UnpackedFloat (unpackSign unpackExponent unpackMantissa)

/-! ## Parts -/

namespace Binary

/-- The binary number of an unpacked one. -/
def ofParts : UnpackedFloat → Binary
  | .notANumber => .nan
  | .infinity sign => .infinite (sign == .negative)
  | .zero sign => .finite (sign == .negative) 0 leastExponent
  | .finite sign mantissa exponent _ => .finite (sign == .negative) mantissa exponent

section

variable (b : BitVec Format.binary64.numBits)

theorem toNat_unpackMantissa : (unpackMantissa b).toNat = b.toNat % implicitBit := by
  rw [unpackMantissa, BitVec.toNat_cast, BitVec.extractLsb_toNat]
  rfl

theorem toNat_unpackExponent : (unpackExponent b).toNat = b.toNat / implicitBit % fieldSize := by
  rw [unpackExponent, BitVec.toNat_cast, BitVec.extractLsb_toNat, Nat.shiftRight_eq_div_pow]
  rfl

/-- The sign of the unpacked number is the highest bit. -/
theorem sign_eq : (UnpackedFloat.Sign.ofBitVec (unpackSign b) == .negative)
    = decide (b.toNat / Nat.pow 2 63 = 1) := by
  have hlt : b.toNat / Nat.pow 2 63 < 2 := by
    have := b.isLt
    rw [Nat.div_lt_iff_lt_mul (by decide)]
    exact this
  have hsign : (unpackSign b).toNat = b.toNat / Nat.pow 2 63 := by
    unfold unpackSign
    rw [BitVec.toNat_cast, BitVec.extractLsb_toNat, Nat.shiftRight_eq_div_pow]
    exact Nat.mod_eq_of_lt hlt
  unfold UnpackedFloat.Sign.ofBitVec
  split
  · next h =>
    rw [h] at hsign
    rw [← hsign]
    rfl
  · next h =>
    have hne : (unpackSign b).toNat ≠ 0 := fun h0 => h (BitVec.eq_of_toNat_eq h0)
    rw [decide_eq_true (by omega)]
    rfl

/-- What a bit pattern stands for, by its exponent and its mantissa. -/
inductive Unpacked : UnpackedFloat → Prop
  | infinity (hones : unpackExponent b = -1#11) (hm : unpackMantissa b = 0#52) :
      Unpacked (.infinity (.ofBitVec (unpackSign b)))
  | notANumber (hones : unpackExponent b = -1#11) (hm : unpackMantissa b ≠ 0#52) :
      Unpacked .notANumber
  | zero (hzero : unpackExponent b = 0#11) (hm : unpackMantissa b = 0#52) :
      Unpacked (.zero (.ofBitVec (unpackSign b)))
  /-- The mantissa has no bit in front. -/
  | small (hzero : unpackExponent b = 0#11) (hm : unpackMantissa b ≠ 0#52)
      (hpos : 0 < (unpackMantissa b).toNat) : Unpacked
        (.finite (.ofBitVec (unpackSign b)) (unpackMantissa b).toNat leastExponent hpos)
  /-- The mantissa has a bit in front. -/
  | full (hones : unpackExponent b ≠ -1#11) (hzero : unpackExponent b ≠ 0#11)
      (hpos : 0 < (1#1 ++ unpackMantissa b).toNat) : Unpacked
        (.finite (.ofBitVec (unpackSign b)) (1#1 ++ unpackMantissa b).toNat
          ((unpackExponent b).toNat - ((1023 : Nat) + (52 : Nat))) hpos)

/-- **A bit pattern is unpacked** as its exponent and its mantissa say. -/
theorem unpacked : Unpacked b (.unpack Format.binary64 b) := by
  unfold UnpackedFloat.unpack
  dsimp only
  by_cases hones : unpackExponent b = -1#11
  · rw [if_pos hones]
    by_cases hm : unpackMantissa b = 0#52
    · rw [if_pos hm]
      exact .infinity hones hm
    · rw [if_neg hm]
      exact .notANumber hones hm
  · rw [if_neg hones]
    by_cases hzero : unpackExponent b = 0#11
    · rw [if_pos hzero]
      by_cases hm : unpackMantissa b = 0#52
      · rw [dif_pos hm]
        exact .zero hzero hm
      · rw [dif_neg hm, hzero]
        exact .small hzero hm _
    · rw [if_neg hzero]
      exact .full hones hzero _

end

/-- A rounded number is a zero or has a mantissa, and keeps its sign. -/
theorem round_cases (spec : Format) (sign : UnpackedFloat.Sign) (m : Nat) (e : Int)
    (accuracy : UnpackedFloat.Accuracy) :
    UnpackedFloat.roundWithAccuracy spec sign m e accuracy = .zero sign ∨ ∃ m' e' hm,
      UnpackedFloat.roundWithAccuracy spec sign m e accuracy = .finite sign m' e' hm := by
  unfold UnpackedFloat.roundWithAccuracy
  dsimp only
  exact if h : _ = 0 then .inl (dif_pos h) else .inr ⟨_, _, _, dif_neg h⟩

/-- **Decoding** reads off the parts. -/
theorem decode_eq (x : Float) : decode x = ofParts x.toModel.unpack := by
  let b : BitVec Format.binary64.numBits := x.toModel.toBits.toBitVec
  have hfield : ∀ n : Nat, (h : n < 2 ^ 11) → (unpackExponent b = BitVec.ofNat 11 n ↔
      b.toNat / implicitBit % fieldSize = n) := by
    intro n h
    rw [← toNat_unpackExponent, ← BitVec.toNat_inj, BitVec.toNat_ofNat, Nat.mod_eq_of_lt h]
  have hmax : unpackExponent b = -1#11 ↔ b.toNat / implicitBit % fieldSize = fieldSize - 1 :=
    hfield 2047 (by decide)
  have hmin := hfield 0 (by decide)
  have hmantissa : unpackMantissa b = 0#52 ↔ b.toNat % implicitBit = 0 := by
    rw [← toNat_unpackMantissa, ← BitVec.toNat_inj]
    rfl
  have hbits : x.toBits.toNat = b.toNat := rfl
  have hunpacked := unpacked b
  show _ = ofParts (.unpack Format.binary64 b)
  unfold decode
  dsimp only
  rw [hbits, ← sign_eq]
  generalize UnpackedFloat.unpack Format.binary64 b = u at hunpacked
  cases hunpacked with
  | infinity hones hm =>
    rw [if_pos (hmax.1 hones), if_pos (hmantissa.1 hm)]
    rfl
  | notANumber hones hm =>
    rw [if_pos (hmax.1 hones), if_neg (hmantissa.not.1 hm)]
    rfl
  | zero hzero hm =>
    have hones : unpackExponent b ≠ -1#11 := hzero ▸ by decide
    rw [if_neg (hmax.not.1 hones), if_pos (hmin.1 hzero), hmantissa.1 hm]
    rfl
  | small hzero hm _ =>
    have hones : unpackExponent b ≠ -1#11 := hzero ▸ by decide
    rw [if_neg (hmax.not.1 hones), if_pos (hmin.1 hzero), ← toNat_unpackMantissa]
    rfl
  | full hones hzero _ =>
    have hsum : (1#1 ++ unpackMantissa b).toNat = implicitBit + b.toNat % implicitBit := by
      rw [BitVec.toNat_append, ← Nat.shiftLeft_add_eq_or_of_lt (unpackMantissa b).isLt,
        toNat_unpackMantissa]
      rfl
    rw [if_neg (hmax.not.1 hones), if_neg (hmin.not.1 hzero), ← hsum, ← toNat_unpackExponent]
    have hpos : (unpackExponent b).toNat ≠ 0 := fun h => hzero (BitVec.eq_of_toNat_eq h)
    show Binary.finite _ _ _ = Binary.finite _ _ _
    congr 1
    rw [leastExponent]
    omega

/-! ## Rational numbers -/

/-- The rational number that a binary number is, if it is one. -/
def rational? : Binary → Option ℚ
  | .finite negative mantissa exponent =>
    some ((if negative then -1 else 1) * (mantissa * 2 ^ exponent))
  | _ => none

/-- A binary number has a whole part just if it is that integer. -/
theorem wholePart?_eq_some_iff {mantissa n : Nat} {exponent : Int} :
    wholePart? mantissa exponent = some n ↔ (mantissa : ℚ) * 2 ^ exponent = n := by
  unfold wholePart?
  split
  · next hpos =>
    obtain ⟨k, rfl⟩ := Int.eq_ofNat_of_zero_le hpos
    rw [Option.some.injEq, Int.toNat_natCast, zpow_natCast, ← Nat.cast_inj (R := ℚ),
      show Nat.pow 2 k = 2 ^ k from rfl]
    push_cast
    exact Iff.rfl
  · next hneg =>
    obtain ⟨k, rfl⟩ : ∃ k : Nat, exponent = -(k : Int) := ⟨exponent.natAbs, by omega⟩
    rw [neg_neg, Int.toNat_natCast, zpow_neg, zpow_natCast, ← div_eq_mul_inv,
      div_eq_iff (by positivity)]
    have hunit : 0 < Nat.pow 2 k := Nat.two_pow_pos k
    have hcast : (mantissa : ℚ) = n * 2 ^ k ↔ mantissa = n * Nat.pow 2 k := by
      rw [← Nat.cast_inj (R := ℚ), show Nat.pow 2 k = 2 ^ k from rfl]
      push_cast
      exact Iff.rfl
    rw [hcast]
    dsimp only
    constructor
    · intro h
      split at h
      · next hmod =>
        rw [← Option.some.inj h]
        exact (Nat.div_mul_cancel (Nat.dvd_of_mod_eq_zero hmod)).symm
      · cases h
    · rintro rfl
      rw [if_pos (Nat.mul_mod_left _ _), Nat.mul_div_cancel _ hunit]

/-- **The integer that a number is equal to** is the rational number that it is. -/
theorem toInt?_eq_some_iff {b : Binary} {i : Int} :
    b.toInt? = some i ↔ b.rational? = some (i : ℚ) := by
  cases b with
  | nan => simp [toInt?, rational?]
  | infinite negative => simp [toInt?, rational?]
  | finite negative mantissa exponent =>
    rw [toInt?, rational?, Option.map_eq_some_iff, Option.some.injEq]
    have hwhole : ∀ z : Int, (wholePart? mantissa exponent >>= fun n => pure (n : Int)) = some z ↔
        ∃ n : Nat, (mantissa : ℚ) * 2 ^ exponent = n ∧ (n : Int) = z := by
      intro z
      rw [Option.bind_eq_bind, Option.bind_eq_some_iff]
      simp only [wholePart?_eq_some_iff, Option.pure_def, Option.some.injEq]
    simp only [hwhole]
    have hpos : (0 : ℚ) ≤ mantissa * 2 ^ exponent := by positivity
    constructor
    · rintro ⟨_, ⟨n, hn, rfl⟩, rfl⟩
      rw [hn]
      cases negative <;> simp
    · intro h
      have habs : (mantissa : ℚ) * 2 ^ exponent = (i.natAbs : ℚ) := by
        rw [Nat.cast_natAbs, Int.cast_abs, ← h]
        cases negative <;> simp [abs_of_nonneg hpos]
      refine ⟨_, ⟨i.natAbs, habs, rfl⟩, ?_⟩
      rw [habs] at h
      refine Int.cast_injective (α := ℚ) (Eq.trans ?_ h)
      cases negative <;> simp

/-- The parts of a finite number: it has at most 53 significant bits, and exactly as many unless its
exponent is the least one. -/
structure Regular (mantissa : Nat) (exponent : Int) : Prop where
  /-- There are at most 53 significant bits. -/
  lt : mantissa < 2 * implicitBit
  /-- The exponent is in its range. -/
  least : leastExponent ≤ exponent
  /-- Above the least exponent the highest bit is set. -/
  full : exponent = leastExponent ∨ implicitBit ≤ mantissa

/-- The mantissa of a decoded number is as long as its exponent allows. -/
theorem regular_of_decode {x : Float} {negative : Bool} {mantissa : Nat} {exponent : Int}
    (h : decode x = .finite negative mantissa exponent) : Regular mantissa exponent := by
  have hlt : x.toBits.toNat % implicitBit < implicitBit := Nat.mod_lt _ (Nat.two_pow_pos 52)
  unfold decode at h
  dsimp only at h
  split at h
  · split at h <;> cases h
  · split at h
    · obtain ⟨-, rfl, rfl⟩ := Binary.finite.inj h
      exact ⟨by omega, le_rfl, .inl rfl⟩
    · obtain ⟨-, rfl, rfl⟩ := Binary.finite.inj h
      exact ⟨by omega, by omega, .inr (Nat.le_add_right _ _)⟩

/-- The parts of a number are unique. -/
theorem Regular.unique {m m' : Nat} {e e' : Int} (h : Regular m e) (h' : Regular m' e')
    (hm : m ≠ 0) (heq : (m : ℚ) * 2 ^ e = m' * 2 ^ e') : m = m' ∧ e = e' := by
  wlog hle : e ≤ e' generalizing m m' e e'
  · have hm' : m' ≠ 0 := by
      rintro rfl
      simp [hm, zpow_ne_zero] at heq
    obtain ⟨hm, he⟩ := this h' h hm' heq.symm (by omega)
    exact ⟨hm.symm, he.symm⟩
  obtain ⟨k, rfl⟩ := Int.le.dest hle
  have hshift : m = m' * 2 ^ k := by
    rw [zpow_add₀ (by norm_num), zpow_natCast] at heq
    have hpow : (2 : ℚ) ^ e ≠ 0 := zpow_ne_zero _ (by norm_num)
    have hcast : (m : ℚ) = m' * 2 ^ k := mul_right_cancel₀ hpow (by rw [heq]; ring)
    exact_mod_cast hcast
  cases k with
  | zero => simpa using hshift
  | succ k =>
    -- A larger exponent goes with all 53 bits, which leaves no room for a factor of two.
    have hfull : implicitBit ≤ m' := h'.full.resolve_left (by have := h.least; omega)
    have hpow : 1 ≤ 2 ^ k := Nat.one_le_two_pow
    have hlt := h.lt
    rw [hshift, pow_succ] at hlt
    nlinarith

end Binary

/-- The rational number that a floating point number is, if it is one. -/
def rational? (x : Float) : Option ℚ :=
  (Binary.decode x).rational?

theorem exactInt?_eq_some_iff {x : Float} {i : Int} :
    exactInt? x = some i ↔ rational? x = some (i : ℚ) :=
  Binary.toInt?_eq_some_iff

/-! ## Comparisons -/

/-- Two numbers compared; there is no order if one of them is not a number. -/
def order? (x y : Float) : Option Ordering :=
  x.toModel.unpack.compare y.toModel.unpack

theorem beq_iff_order? {x y : Float} : (x == y) = true ↔ order? x y = some .eq := by
  show (order? x y == some .eq) = true ↔ _
  exact beq_iff_eq

theorem lt_iff_order? {x y : Float} : x < y ↔ order? x y = some .lt := by
  show decide (x.toModel < y.toModel) = true ↔ _
  exact decide_eq_true_iff.trans beq_iff_eq

/-- The order of two numbers the other way round. -/
theorem order?_swap (x y : Float) : order? y x = (order? x y).map Ordering.swap := by
  unfold order?
  generalize x.toModel.unpack = a
  generalize y.toModel.unpack = b
  have hparts : ∀ (m n : Nat) (e f : Int),
      ((compare f e).then (compare n m)) = ((compare e f).then (compare m n)).swap := by
    intro m n e f
    rw [Ordering.swap_then, ← Std.OrientedCmp.eq_swap, ← Std.OrientedCmp.eq_swap]
  rcases a with (_ | _) | _ | _ | ⟨_ | _, m, e, hm⟩ <;>
    rcases b with (_ | _) | _ | _ | ⟨_ | _, n, f, hn⟩ <;>
    first
    | rfl
    | exact congrArg some (hparts m n e f)
    | exact congrArg (fun o => some (Ordering.swap o)) (hparts m n e f)

/-- Two numbers have no order just if one of them is not a number. -/
theorem order?_eq_none_iff {x y : Float} : order? x y = none ↔ x.isNaN = true ∨ y.isNaN = true := by
  show (x.toModel.unpack.compare y.toModel.unpack) = none ↔
    x.toModel.unpack.isNaN = true ∨ y.toModel.unpack.isNaN = true
  generalize x.toModel.unpack = a
  generalize y.toModel.unpack = b
  rcases a with (_ | _) | _ | _ | ⟨_ | _, m, e, hm⟩ <;>
    rcases b with (_ | _) | _ | _ | ⟨_ | _, n, f, hn⟩ <;>
    first
    | exact iff_of_true rfl (.inl rfl)
    | exact iff_of_true rfl (.inr rfl)
    | exact iff_of_false (Option.some_ne_none _) (not_or.2 ⟨Bool.false_ne_true, Bool.false_ne_true⟩)

/-! ## Equality -/

/-- A number compares as equal to itself. -/
theorem compare_finite_self {sign : UnpackedFloat.Sign} {m : Nat} {e : Int} {hm : 0 < m} :
    (UnpackedFloat.finite sign m e hm).compare (.finite sign m e hm) = some .eq := by
  have hself : (compare e e).then (compare m m) = .eq :=
    Ordering.then_eq_eq.2 ⟨Std.ReflCmp.compare_self, Std.ReflCmp.compare_self⟩
  cases sign with
  | negative => exact congrArg (fun o => some (Ordering.swap o)) hself
  | positive => exact congrArg some hself

/-- Two numbers compare as equal just if they have the same parts, but for the signs of zeros. -/
theorem compare_eq_iff {f g : UnpackedFloat} : f.compare g = some .eq ↔
    (f = g ∧ f ≠ .notANumber) ∨ (∃ sign, f = .zero sign) ∧ ∃ sign, g = .zero sign := by
  constructor
  · intro h
    have hsame : ∀ {e d : Int} {m n : Nat}, (compare e d).then (compare m n) = .eq →
        e = d ∧ m = n := fun h =>
      have h := Ordering.then_eq_eq.1 h
      ⟨Std.LawfulEqCmp.eq_of_compare h.1, Std.LawfulEqCmp.eq_of_compare h.2⟩
    rcases f with (_ | _) | _ | sign | ⟨_ | _, m, e, hm⟩ <;>
      rcases g with (_ | _) | _ | sign' | ⟨_ | _, n, d, hn⟩ <;>
      first
      | (cases h; done)
      | exact .inl ⟨rfl, nofun⟩
      | exact .inr ⟨⟨_, rfl⟩, _, rfl⟩
      | skip
    · obtain ⟨rfl, rfl⟩ := hsame (Ordering.swap_eq_eq.1 (Option.some.inj h))
      exact .inl ⟨rfl, nofun⟩
    · obtain ⟨rfl, rfl⟩ := hsame (Option.some.inj h)
      exact .inl ⟨rfl, nofun⟩
  · rintro (⟨rfl, hnumber⟩ | ⟨⟨sign, rfl⟩, sign', rfl⟩)
    · cases f with
      | notANumber => exact absurd rfl hnumber
      | infinity sign => cases sign <;> rfl
      | zero sign => rfl
      | finite sign m e hm => exact compare_finite_self
    · rfl

/-- Equal numbers have the same parts, but for the signs of zeros. -/
theorem beq_iff_unpack {x y : Float} : (x == y) = true ↔
    (x.toModel.unpack = y.toModel.unpack ∧ x.toModel.unpack ≠ .notANumber) ∨
      (∃ sign, x.toModel.unpack = .zero sign) ∧ ∃ sign, y.toModel.unpack = .zero sign :=
  beq_iff_order?.trans compare_eq_iff

/-- Equality of floating point numbers is symmetric. -/
theorem beq_comm (x y : Float) : (x == y) = (y == x) := by
  rw [Bool.eq_iff_iff, beq_iff_order?, beq_iff_order?, order?_swap x y]
  cases order? x y with
  | none => exact Iff.rfl
  | some o => cases o <;> decide

/-- Equality of floating point numbers is transitive. -/
theorem beq_trans {x y z : Float} (hxy : (x == y) = true) (hyz : (y == z) = true) :
    (x == z) = true := by
  rw [beq_iff_unpack] at hxy hyz ⊢
  rcases hxy with ⟨hxy, hnumber⟩ | ⟨hx, hy⟩
  · rwa [hxy]
  · rcases hyz with ⟨hyz, -⟩ | ⟨-, hz⟩
    · exact .inr ⟨hx, hyz ▸ hy⟩
    · exact .inr ⟨hx, hz⟩

/-- A number equals itself unless it is "not a number". -/
theorem beq_self_iff {x : Float} : (x == x) = true ↔ ¬x.isNaN = true := by
  have hnone : order? x x = none ↔ x.isNaN = true := order?_eq_none_iff.trans or_self_iff
  have hswap := order?_swap x x
  rw [beq_iff_order?, ← hnone]
  cases h : order? x x with
  | none => exact iff_of_false nofun (not_not_intro rfl)
  | some o =>
    rw [h] at hswap
    cases o with
    | eq => exact iff_of_true rfl (Option.some_ne_none _)
    | _ => exact absurd hswap (by decide)

/-- Either zero is the rational number zero. -/
theorem rational?_of_zero {x : Float} {sign : UnpackedFloat.Sign}
    (h : x.toModel.unpack = .zero sign) : rational? x = some 0 := by
  rw [rational?, Binary.decode_eq, h]
  show Binary.rational? (.finite _ 0 Binary.leastExponent) = _
  simp [Binary.rational?]

/-- Equal numbers are the same integer, if they are one. -/
theorem exactInt?_congr {x y : Float} (h : (x == y) = true) : exactInt? x = exactInt? y := by
  have hzero : ∀ {z : Float}, (∃ sign, z.toModel.unpack = .zero sign) → exactInt? z = some 0 := by
    rintro z ⟨sign, hz⟩
    rw [exactInt?_eq_some_iff, rational?_of_zero hz, Int.cast_zero]
  rcases beq_iff_unpack.1 h with ⟨hparts, -⟩ | ⟨hx, hy⟩
  · rw [exactInt?, exactInt?, Binary.decode_eq, Binary.decode_eq, hparts]
  · rw [hzero hx, hzero hy]

/-- The parts of a number that is neither an infinity nor "not a number". -/
theorem unpack_of_decode {x : Float} {n : Bool} {m : Nat} {e : Int}
    (h : Binary.decode x = .finite n m e) :
    (m = 0 ∧ ∃ sign, x.toModel.unpack = .zero sign) ∨
      ∃ sign hm, (sign == UnpackedFloat.Sign.negative) = n ∧
        x.toModel.unpack = .finite sign m e hm := by
  rw [Binary.decode_eq] at h
  cases hx : x.toModel.unpack with
  | notANumber => rw [hx] at h; cases h
  | infinity sign => rw [hx] at h; cases h
  | zero sign =>
    rw [hx] at h
    obtain ⟨-, rfl, -⟩ := Binary.finite.inj h
    exact .inl ⟨rfl, sign, rfl⟩
  | finite sign m' e' hm =>
    rw [hx] at h
    obtain ⟨hsign, rfl, rfl⟩ := Binary.finite.inj h
    exact .inr ⟨sign, hm, hsign, rfl⟩

/-- **Numbers that are the same rational number are equal.** -/
theorem beq_of_rational? {x y : Float} {q : ℚ} (hx : rational? x = some q)
    (hy : rational? y = some q) : (x == y) = true := by
  have hparts : ∀ {z : Float}, rational? z = some q → ∃ n m e, Binary.decode z = .finite n m e ∧
      (if n then -1 else 1) * ((m : ℚ) * 2 ^ e) = q := by
    intro z hz
    unfold rational? at hz
    cases hdecode : Binary.decode z with
    | finite n m e =>
      rw [hdecode] at hz
      exact ⟨n, m, e, rfl, Option.some.inj hz⟩
    | _ => rw [hdecode] at hz; cases hz
  obtain ⟨n, m, e, hdx, hqx⟩ := hparts hx
  obtain ⟨n', m', e', hdy, hqy⟩ := hparts hy
  have habs : (m : ℚ) * 2 ^ e = m' * 2 ^ e' := by
    have h := congrArg abs (hqx.trans hqy.symm)
    have hm : (0 : ℚ) ≤ m * 2 ^ e := by positivity
    have hm' : (0 : ℚ) ≤ m' * 2 ^ e' := by positivity
    cases n <;> cases n' <;> simpa [abs_of_nonneg hm, abs_of_nonneg hm'] using h
  rw [beq_iff_order?, order?]
  rcases unpack_of_decode hdx with ⟨rfl, sign, hux⟩ | ⟨sign, hm, hsign, hux⟩
  · -- Zero is the only number without a positive mantissa.
    rcases unpack_of_decode hdy with ⟨-, sign', huy⟩ | ⟨sign', hm', -, -⟩
    · rw [hux, huy]
      rfl
    · simp [hm'.ne', zpow_ne_zero] at habs
  · have hpos : (0 : ℚ) < m * 2 ^ e := by positivity
    obtain ⟨rfl, rfl⟩ := (Binary.regular_of_decode hdx).unique (Binary.regular_of_decode hdy)
      hm.ne' habs
    have hn : n = n' := by
      have h := hqx.trans hqy.symm
      cases n <;> cases n' <;> simp only [Bool.false_eq_true, if_true, if_false] at h <;>
        first
        | rfl
        | linarith
    rcases unpack_of_decode hdy with ⟨h0, -⟩ | ⟨sign', hm', hsign', huy⟩
    · omega
    · have hsigns : sign = sign' := by
        have h := hsign.trans (hn.trans hsign'.symm)
        cases sign <;> cases sign' <;> first | rfl | cases h
      rw [hux, huy, hsigns]
      exact compare_finite_self

end ScriptVM.Decimal
