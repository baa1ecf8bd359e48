/-
# Integers as floating point numbers

An integer compared with a floating point number is made one first, by rounding it to the nearest.
An integer with at most 53 significant bits needs no rounding (`Decimal.Short`): it is shifted until
the highest of 53 bits is set, or has only zeros behind them (`Decimal.Full`), and neither the
rounding nor the bit pattern changes such a number.

Main statements: `Decimal.rational?_ofInt`, `Decimal.short_of_rational?` and `Decimal.isNaN_ofInt`.
-/
import Mathlib.Tactic.FieldSimp
import ScriptVM.Proofs.Decimal.Rational

namespace ScriptVM.Decimal

open Float.Model (UnpackedFloat Format)
open Float.Model.UnpackedFloat (ExtendedMantissa roundWithAccuracy)

/-- Zeros are shifted out of a mantissa without a loss. -/
theorem shiftRight_exact (m k : Nat) :
    (⟨m * 2 ^ k, false, false⟩ : ExtendedMantissa) >>> k = ⟨m, false, false⟩ := by
  show Nat.repeat _ k _ = _
  induction k generalizing m with
  | zero => rw [pow_zero, mul_one]; rfl
  | succ k ih =>
    rw [pow_succ', ← mul_assoc, Nat.repeat, ih]
    simp [ExtendedMantissa.shiftRightOne]

/-- A mantissa with all of its bits: the highest of the 53 is set. -/
def Full (m : Nat) : Prop :=
  2 ^ 52 ≤ m ∧ m < 2 ^ 53

theorem Full.log2_eq {m : Nat} (h : Full m) : m.log2 = 52 :=
  (Nat.log2_eq_iff (by have := h.1; omega)).2 ⟨h.1, h.2⟩

/-- The mantissa and the exponent of a number that has all bits stay what they are. -/
theorem Full.targetExponent {m : Nat} {e : Int} (h : Full m) (he : -1074 ≤ e) (k : Nat) :
    Format.binary64.targetExponent (Float.Model.totalExponent (m * 2 ^ k) (e - k)) = e := by
  have hlog : (m * 2 ^ k).log2 = 52 + k := by
    rw [Nat.log2_eq_iff (by have := h.1; positivity), pow_add, show 52 + k + 1 = 53 + k by omega,
      pow_add]
    exact ⟨Nat.mul_le_mul_right _ h.1, Nat.mul_lt_mul_of_pos_right h.2 (Nat.two_pow_pos k)⟩
  rw [Format.targetExponent, Float.Model.totalExponent, hlog]
  show max _ (-1074 : Int) = e
  rw [show Format.binary64.mantissaBits = 53 from rfl]
  push_cast
  omega

/-- A mantissa with zeros behind its 53 bits is shifted to those bits, without a loss. -/
theorem Full.shift {m : Nat} {e : Int} (h : Full m) (he : -1074 ≤ e) (k : Nat) :
    UnpackedFloat.shiftToTargetExponent Format.binary64 (m * 2 ^ k) (e - k) .exact
      = (⟨m, false, false⟩, e) := by
  unfold UnpackedFloat.shiftToTargetExponent UnpackedFloat.shiftToExponent
  dsimp only
  rw [h.targetExponent he, show (e - (e - k)).toNat = k by omega]
  refine Prod.ext (shiftRight_exact m k) ?_
  show e - k + k = e
  omega

/-- **A number with at most 53 significant bits is not rounded.** -/
theorem Full.round {m : Nat} {e : Int} (h : Full m) (he : -1074 ≤ e) (sign : UnpackedFloat.Sign)
    (k : Nat) (hm : 0 < m) :
    roundWithAccuracy Format.binary64 sign (m * 2 ^ k) (e - k) .exact = .finite sign m e hm := by
  have hstay := h.shift he 0
  rw [pow_zero, mul_one, Int.natCast_zero, sub_zero] at hstay
  unfold roundWithAccuracy
  dsimp only
  rw [h.shift he]
  dsimp only
  rw [show (⟨m, false, false⟩ : ExtendedMantissa).roundedMantissa = m from rfl, hstay]
  dsimp only
  rw [dif_neg hm.ne']

/-- The sign is the highest bit of a bit pattern. -/
theorem ofBitVec_unpackSign_packComponents (sign : UnpackedFloat.Sign) (e : BitVec 11)
    (m : BitVec 52) :
    UnpackedFloat.Sign.ofBitVec (UnpackedFloat.unpackSign
      (UnpackedFloat.packComponents Format.binary64 sign e m)) = sign := by
  have hsign : UnpackedFloat.unpackSign (UnpackedFloat.packComponents Format.binary64 sign e m) =
      sign.toBitVec := by
    refine BitVec.eq_of_toNat_eq ?_
    have hs := sign.toBitVec.isLt
    have he := e.isLt
    have hm := m.isLt
    unfold UnpackedFloat.unpackSign
    rw [BitVec.toNat_cast, BitVec.extractLsb_toNat, Nat.shiftRight_eq_div_pow]
    show (sign.toBitVec ++ e ++ m).toNat / 2 ^ 63 % 2 ^ 1 = _
    rw [BitVec.toNat_append, ← Nat.shiftLeft_add_eq_or_of_lt hm, BitVec.toNat_append,
      ← Nat.shiftLeft_add_eq_or_of_lt he, Nat.shiftLeft_eq, Nat.shiftLeft_eq]
    omega
  rw [hsign]
  cases sign <;> rfl

/-- The parts of a number that has all bits are kept in its bit pattern. -/
theorem Full.unpack_pack {m : Nat} {e : Int} (h : Full m) (he : -1074 ≤ e) (hmax : e ≤ 971)
    (sign : UnpackedFloat.Sign) (hm : 0 < m) :
    (Float.Model.pack (.finite sign m e hm)).unpack = .finite sign m e hm := by
  obtain ⟨field, rfl⟩ : ∃ field : Nat, e = (field : Int) - 1075 := ⟨(e + 1075).toNat, by omega⟩
  have hpack : UnpackedFloat.pack Format.binary64 (.finite sign m ((field : Int) - 1075) hm)
      = UnpackedFloat.packComponents Format.binary64 sign (BitVec.ofNat 11 field)
          (BitVec.ofNat 52 m) := by
    unfold UnpackedFloat.pack
    dsimp only
    have hbiased : ((field : Int) - 1075 + Format.binary64.exponentBias + (52 : Nat)).toNat
        = field := by
      rw [show Format.binary64.exponentBias = 1023 from rfl]
      omega
    rw [hbiased, if_neg (by omega), if_pos (by rw [h.log2_eq]; rfl)]
  let b := UnpackedFloat.packComponents Format.binary64 sign (BitVec.ofNat 11 field)
    (BitVec.ofNat 52 m)
  -- The fields are those that were packed; the exponent is neither of the two special ones.
  have hexponent : UnpackedFloat.unpackExponent b = BitVec.ofNat 11 field :=
    UnpackedFloat.unpackExponent_packComponents
  have hfraction : UnpackedFloat.unpackMantissa b = BitVec.ofNat 52 m :=
    UnpackedFloat.unpackMantissa_packComponents
  have hfield : (BitVec.ofNat 11 field).toNat = field := by
    rw [BitVec.toNat_ofNat, Nat.mod_eq_of_lt (by omega)]
  have hmin : BitVec.ofNat 11 field ≠ 0#11 := by
    intro h0
    have h0 := congrArg BitVec.toNat h0
    rw [hfield, BitVec.toNat_zero] at h0
    omega
  have hones : BitVec.ofNat 11 field ≠ -1#11 := by
    intro h1
    have h1 := congrArg BitVec.toNat h1
    rw [hfield, show (-1#11 : BitVec 11).toNat = 2047 from rfl] at h1
    omega
  -- The highest bit is not stored, and is put back in front.
  have hmantissa : (1#1 ++ BitVec.ofNat 52 m).toNat = m := by
    have hlow := h.1
    have hhigh := h.2
    rw [BitVec.toNat_append, ← Nat.shiftLeft_add_eq_or_of_lt (BitVec.ofNat 52 m).isLt,
      BitVec.toNat_ofNat]
    show 2 ^ 52 + m % 2 ^ 52 = m
    omega
  show UnpackedFloat.unpack Format.binary64 (UnpackedFloat.pack Format.binary64 _) = _
  rw [hpack]
  show UnpackedFloat.unpack Format.binary64 b = _
  have hunpacked := Binary.unpacked b
  generalize UnpackedFloat.unpack Format.binary64 b = u at hunpacked
  cases hunpacked with
  | infinity h1 _ | notANumber h1 _ => exact absurd (hexponent.symm.trans h1) hones
  | zero h0 _ | small h0 _ _ => exact absurd (hexponent.symm.trans h0) hmin
  | full _ _ hpos =>
    congr 1
    · exact ofBitVec_unpackSign_packComponents sign _ _
    · rw [hfraction]
      exact hmantissa
    · rw [hexponent, hfield]
      omega

theorem Full.two_pow : Full (2 ^ 52) :=
  ⟨le_rfl, by norm_num⟩

/-- One has a bit pattern with the highest mantissa bit only. -/
theorem unpack_one : (Float.ofBits 4607182418800017408).toModel.unpack
    = .finite .positive (2 ^ 52) (-52) (Nat.two_pow_pos 52) := by
  have hbits : UnpackedFloat.unpack Format.binary64 (4607182418800017408 : UInt64).toBitVec
      = .finite .positive (2 ^ 52) (-52) (Nat.two_pow_pos 52) := by
    rfl
  show (Float.Model.pack
    (.unpack Format.binary64 (4607182418800017408 : UInt64).toBitVec)).unpack = _
  rw [hbits]
  exact Full.two_pow.unpack_pack (e := -52) (by norm_num) (by norm_num) .positive _

/-- A number with all bits times one. -/
theorem Full.unpack_mul_one {m : Nat} {e : Int} (h : Full m) (he : -1074 ≤ e) (hmax : e ≤ 971)
    (hm : 0 < m) {x : Float} (hx : x.toModel.unpack = .finite .positive m e hm) :
    (x * Float.ofBits 4607182418800017408).toModel.unpack = .finite .positive m e hm := by
  show (Float.Model.pack (UnpackedFloat.mul Format.binary64 x.toModel.unpack
    (Float.ofBits 4607182418800017408).toModel.unpack)).unpack = _
  rw [hx, unpack_one]
  have hround := h.round he (.positive * .positive) 52 hm
  rw [show e - (52 : Nat) = e + -52 by omega] at hround
  show (Float.Model.pack (roundWithAccuracy Format.binary64 _ _ _ .exact)).unpack = _
  rw [hround]
  exact h.unpack_pack he hmax .positive hm

/-- A whole number below `2 ^ 53`, with as many zeros behind it as fill all bits. -/
theorem Full.unpack_toFloat {m n k : Nat} (h : Full m) (hm : 0 < m) (hn : n * 2 ^ k = m) :
    n.toUInt64.toFloat.toModel.unpack = .finite .positive m (-k) hm := by
  have hpos : 0 < n := Nat.pos_of_ne_zero (by rintro rfl; simp at hn; omega)
  have hlow := h.1
  have hhigh := h.2
  obtain ⟨j, hj⟩ : ∃ j, 52 = j + k := by
    have hle : 2 ^ k ≤ m := hn ▸ Nat.le_mul_of_pos_left _ hpos
    have hk : k < 53 := (Nat.pow_lt_pow_iff_right (by norm_num)).1 (Nat.lt_of_le_of_lt hle hhigh)
    exact ⟨52 - k, by omega⟩
  -- The zeros make up for the bits that the number itself does not have.
  have hlog : n.log2 = j := by
    rw [Nat.log2_eq_iff (by omega)]
    rw [hj, pow_add, ← hn] at hlow
    rw [show 53 = j + 1 + k by omega, pow_add, ← hn] at hhigh
    exact ⟨Nat.le_of_mul_le_mul_right hlow (Nat.two_pow_pos k), Nat.lt_of_mul_lt_mul_right hhigh⟩
  have hlt : n < 2 ^ 53 :=
    Nat.lt_of_le_of_lt (Nat.le_mul_of_pos_right n (Nat.two_pow_pos k)) (hn ▸ hhigh)
  have hsize : n.toUInt64.toNat = n := Nat.mod_eq_of_lt (Nat.lt_trans hlt (by norm_num))
  show (Float.Model.pack (UnpackedFloat.normalize Format.binary64 (n.toUInt64.toNat : Int) 0
    .positive)).unpack = _
  rw [hsize]
  have hround : UnpackedFloat.normalize Format.binary64 (n : Int) 0 .positive
      = .finite .positive m (-k) hm := by
    have hgt : compare (n : Int) 0 = .gt := by
      rw [Int.compare_eq_gt]
      omega
    unfold UnpackedFloat.normalize
    rw [hgt]
    dsimp only
    -- Rounding shifts the mantissa to all bits and loses nothing.
    have htarget : Format.binary64.targetExponent (Float.Model.totalExponent n 0) = -(k : Int) := by
      rw [Format.targetExponent, Float.Model.totalExponent, hlog]
      show max ((j : Int) + 1 + 0 - (53 : Nat)) (-1074) = -(k : Int)
      omega
    unfold UnpackedFloat.round UnpackedFloat.decreaseExponent
    dsimp only
    rw [Int.toNat_natCast, htarget, show (0 - -(k : Int)).toNat = k by omega, Nat.shiftLeft_eq, hn]
    have hexact := h.round (e := -k) (by omega) .positive 0 hm
    rw [pow_zero, mul_one] at hexact
    rw [← hexact]
    congr 1
    omega
  rw [hround]
  exact h.unpack_pack (by omega) (by omega) .positive hm

/-- A whole number with all bits and zeros behind them. -/
theorem Full.unpack_ofScientific {m k : Nat} (h : Full m) (hm : 0 < m) (hk : k ≤ 971) :
    (Float.Model.ofScientific (m * 2 ^ k) 0).unpack = .finite .positive m k hm := by
  have hne : m * 2 ^ k ≠ 0 := by positivity
  have hround := h.round (e := k) (by omega) .positive (k + 53) hm
  have hmantissa : (m * 2 ^ k) <<< 53 * 10 ^ 0 = m * 2 ^ (k + 53) := by
    rw [Nat.shiftLeft_eq, pow_zero, mul_one, mul_assoc, ← pow_add]
  have hscientific : UnpackedFloat.ofScientific Format.binary64 (m * 2 ^ k) 0
      = .finite .positive m k hm := by
    unfold UnpackedFloat.ofScientific
    rw [dif_neg hne, if_neg (by norm_num), if_neg (by norm_num), if_pos le_rfl]
    unfold UnpackedFloat.mul
    dsimp only
    rw [show Format.binary64.mantissaBits = 53 from rfl, Int.toNat_zero, hmantissa,
      show (-(53 : Nat) + 0 : Int) = k - (k + 53 : Nat) by omega]
    exact hround
  show (Float.Model.pack (UnpackedFloat.ofScientific Format.binary64 (m * 2 ^ k) 0)).unpack = _
  rw [hscientific]
  exact h.unpack_pack (by omega) (by omega) .positive hm

/-- The numbers with at most 53 significant bits that are no greater than `2 ^ 63`. -/
def Short (n : Nat) : Prop :=
  n ≤ 2 ^ 63 ∧ ∃ m k, n = m * 2 ^ k ∧ m < 2 ^ 53

/-- A short number either has all bits, and zeros behind them, or needs zeros to fill them. -/
theorem Short.cases {n : Nat} (h : Short n) (hn : n ≠ 0) :
    (∃ m k, Full m ∧ k ≤ 971 ∧ n = m * 2 ^ k ∧ 2 ^ 53 ≤ n) ∨ ∃ m k, Full m ∧ n * 2 ^ k = m := by
  have hlow := Nat.log2_self_le hn
  have hhigh := Nat.lt_log2_self (n := n)
  rcases Nat.lt_or_ge n (2 ^ 53) with hlt | hge
  · have hlog : n.log2 < 53 := (Nat.log2_lt hn).2 hlt
    obtain ⟨k, hk⟩ : ∃ k, n.log2 + k = 52 := ⟨52 - n.log2, by omega⟩
    refine .inr ⟨n * 2 ^ k, k, ⟨?_, ?_⟩, rfl⟩
    · rw [← hk, pow_add]
      exact Nat.mul_le_mul_right _ hlow
    · rw [show 53 = n.log2 + 1 + k by omega, pow_add]
      exact Nat.mul_lt_mul_of_pos_right hhigh (Nat.two_pow_pos k)
  · obtain ⟨hle, m, j, rfl, hm⟩ := h
    have hlog : 53 ≤ (m * 2 ^ j).log2 := (Nat.le_log2 hn).2 hge
    obtain ⟨k, hk⟩ : ∃ k, 52 + k = (m * 2 ^ j).log2 := ⟨_, Nat.add_sub_of_le (by omega)⟩
    -- The bits of `m` alone are too few, so it has at least as many zeros behind it.
    have hj : k ≤ j := by
      by_contra hlt
      have hpow : (2 : Nat) ^ 53 * 2 ^ j ≤ 2 ^ (m * 2 ^ j).log2 := by
        rw [← pow_add]
        exact Nat.pow_le_pow_right (by norm_num) (by omega)
      have := Nat.mul_lt_mul_of_pos_right hm (Nat.two_pow_pos j)
      omega
    obtain ⟨i, rfl⟩ := Nat.exists_eq_add_of_le hj
    have hsplit : m * 2 ^ (k + i) = m * 2 ^ i * 2 ^ k := by ring
    rw [hsplit] at hlow hhigh hk ⊢
    refine .inl ⟨m * 2 ^ i, k, ⟨?_, ?_⟩, ?_, rfl, hsplit ▸ hge⟩
    · rw [← hk, pow_add] at hlow
      exact Nat.le_of_mul_le_mul_right hlow (Nat.two_pow_pos k)
    · rw [← hk, show 52 + k + 1 = 53 + k by omega, pow_add] at hhigh
      exact Nat.lt_of_mul_lt_mul_right hhigh
    · have : (m * 2 ^ i * 2 ^ k).log2 < 64 :=
        (Nat.log2_lt (hsplit ▸ hn)).2 (by rw [← hsplit]; omega)
      omega

/-- **A short number is converted exactly.** -/
theorem Short.unpack_ofNat {n : Nat} (h : Short n) (hn : n ≠ 0) : ∃ m e hm, Full m ∧ -1074 ≤ e ∧
    e ≤ 971 ∧ (m : ℚ) * 2 ^ e = n ∧ (Float.ofNat n).toModel.unpack = .finite .positive m e hm := by
  have hunfold : Float.ofNat n = Float.ofScientific n false 0 := rfl
  rcases h.cases hn with ⟨m, k, hfull, hk, rfl, hle⟩ | ⟨m, k, hfull, hnm⟩
  · have hm : 0 < m := by have := hfull.1; omega
    refine ⟨m, k, hm, hfull, by omega, by omega, by push_cast; rw [zpow_natCast], ?_⟩
    rw [hunfold, Float.ofScientific, dif_neg (by omega)]
    exact hfull.unpack_ofScientific hm hk
  · have hm : 0 < m := by have := hfull.1; omega
    have hpow : 2 ^ k ≤ m := hnm ▸ Nat.le_mul_of_pos_left _ (Nat.pos_of_ne_zero hn)
    have hk : k < 53 :=
      (Nat.pow_lt_pow_iff_right (by norm_num)).1 (Nat.lt_of_le_of_lt hpow hfull.2)
    have hlt : n < 2 ^ 53 :=
      Nat.lt_of_le_of_lt (Nat.le_mul_of_pos_right n (Nat.two_pow_pos k)) (hnm ▸ hfull.2)
    refine ⟨m, -k, hm, hfull, by omega, by omega, ?_, ?_⟩
    · rw [← hnm, zpow_neg, zpow_natCast]
      push_cast
      field_simp
    · rw [hunfold, Float.ofScientific, dif_pos ⟨hlt, by norm_num⟩]
      exact hfull.unpack_mul_one (by omega) (by omega) hm (hfull.unpack_toFloat hm hnm)

/-- No bits of zero are set. -/
theorem unpack_zero : (Float.ofNat 0).toModel.unpack = .zero .positive := by rfl

/-- The rational number of a number in parts. -/
theorem rational?_of_unpack {x : Float} {sign : UnpackedFloat.Sign} {m : Nat} {e : Int} {hm : 0 < m}
    (h : x.toModel.unpack = .finite sign m e hm) :
    rational? x = some ((if sign == .negative then -1 else 1) * ((m : ℚ) * 2 ^ e)) := by
  rw [rational?, Binary.decode_eq, h]
  rfl

/-- **A short integer is converted exactly.** -/
theorem rational?_ofInt {i : Int} (h : Short i.natAbs) :
    rational? (Float.ofInt i) = some (i : ℚ) := by
  cases i with
  | ofNat n =>
    have h : Short n := h
    show rational? (Float.ofNat n) = _
    by_cases hn : n = 0
    · subst hn
      rw [rational?_of_zero unpack_zero]
      rfl
    · obtain ⟨m, e, hm, -, -, -, hq, hu⟩ := h.unpack_ofNat hn
      rw [rational?_of_unpack hu, hq, if_neg (by decide)]
      simp
  | negSucc n =>
    have h : Short (n + 1) := h
    obtain ⟨m, e, hm, hfull, he, hmax, hq, hu⟩ := h.unpack_ofNat (Nat.succ_ne_zero n)
    have hneg : (Float.ofInt (.negSucc n)).toModel.unpack = .finite .negative m e hm := by
      show (Float.Model.pack (Float.ofNat (n + 1)).toModel.unpack.neg).unpack = _
      rw [hu]
      exact hfull.unpack_pack he hmax .negative hm
    rw [rational?_of_unpack hneg, hq, if_pos (by decide)]
    simp [Int.negSucc_eq]

/-- An integer up to `2 ^ 53` is short. -/
theorem short_of_le {n : Nat} (h : n ≤ 2 ^ 53) : Short n := by
  refine ⟨by omega, ?_⟩
  rcases Nat.lt_or_eq_of_le h with hlt | rfl
  · exact ⟨n, 0, by simp, hlt⟩
  · exact ⟨1, 53, by simp, by norm_num⟩

/-- A floating point number that is an integer no greater than `2 ^ 63` is a short one. -/
theorem short_of_rational? {x : Float} {i : Int} (h : rational? x = some (i : ℚ))
    (hi : i.natAbs ≤ 2 ^ 63) : Short i.natAbs := by
  rw [rational?] at h
  cases hdecode : Binary.decode x with
  | finite negative m e =>
    have hregular := Binary.regular_of_decode hdecode
    rw [hdecode] at h
    have habs : (m : ℚ) * 2 ^ e = (i.natAbs : ℚ) := by
      have hpos : (0 : ℚ) ≤ m * 2 ^ e := by positivity
      rw [Nat.cast_natAbs, Int.cast_abs, ← Option.some.inj h]
      cases negative <;> simp [abs_of_nonneg hpos]
    have hm : m < 2 ^ 53 := hregular.lt
    rcases le_or_gt 0 e with he | he
    · obtain ⟨k, rfl⟩ := Int.eq_ofNat_of_zero_le he
      refine ⟨hi, m, k, ?_, hm⟩
      rw [zpow_natCast] at habs
      exact_mod_cast habs.symm
    · refine short_of_le ?_
      have hle : (i.natAbs : ℚ) ≤ m := by
        rw [← habs]
        exact mul_le_of_le_one_right (by positivity) (zpow_le_one_of_nonpos₀ (by norm_num) he.le)
      have hle : i.natAbs ≤ m := by exact_mod_cast hle
      omega
  | _ => rw [hdecode] at h; cases h

/-! ## Rounded integers -/

/-- A bit pattern whose exponent is not the greatest one is a number. -/
theorem isNaN_unpack {b : BitVec Format.binary64.numBits}
    (h : UnpackedFloat.unpackExponent b ≠ -1#11) :
    (UnpackedFloat.unpack Format.binary64 b).isNaN = false := by
  have hunpacked := Binary.unpacked b
  generalize UnpackedFloat.unpack Format.binary64 b = u at hunpacked
  cases hunpacked with
  | infinity hones _ | notANumber hones _ => exact absurd hones h
  | _ => rfl

/-- A number is "not a number" in its bit pattern just if it is in its parts. -/
theorem isNaN_unpack_pack (u : UnpackedFloat) : (Float.Model.pack u).unpack.isNaN = u.isNaN := by
  show (UnpackedFloat.unpack Format.binary64 (UnpackedFloat.pack Format.binary64 u)).isNaN = _
  cases u with
  | notANumber => rfl
  | infinity sign | zero sign => cases sign <;> rfl
  | finite sign m e hm =>
    show _ = false
    unfold UnpackedFloat.pack
    dsimp only
    split
    · cases sign <;> rfl
    · next hlt =>
      have hlt : ¬2 ^ 11 ≤ (e + Format.binary64.exponentBias + (52 : Nat)).toNat + 1 := hlt
      have hones :
          BitVec.ofNat 11 (e + Format.binary64.exponentBias + (52 : Nat)).toNat ≠ -1#11 := by
        intro h1
        have h1 := congrArg BitVec.toNat h1
        rw [BitVec.toNat_ofNat, show (-1#11 : BitVec 11).toNat = 2047 from rfl] at h1
        omega
      have hzero : (0#11 : BitVec 11) ≠ -1#11 := by decide
      split
      · exact isNaN_unpack (UnpackedFloat.unpackExponent_packComponents.trans_ne hones)
      · exact isNaN_unpack (UnpackedFloat.unpackExponent_packComponents.trans_ne hzero)

/-- Rounding gives a number. -/
theorem isNaN_roundWithAccuracy (sign : UnpackedFloat.Sign) (m : Nat) (e : Int)
    (accuracy : Float.Model.UnpackedFloat.Accuracy) :
    (roundWithAccuracy Format.binary64 sign m e accuracy).isNaN = false := by
  rcases Binary.round_cases Format.binary64 sign m e accuracy with h | ⟨_, _, _, h⟩
  · rw [h]
    rfl
  · rw [h]
    rfl

/-- A natural number is converted to a number. -/
theorem isNaN_ofNat (n : Nat) : (Float.ofNat n).isNaN = false := by
  rcases Nat.lt_or_ge n (2 ^ 53) with hlt | hge
  · by_cases hn : n = 0
    · subst hn
      show (Float.ofNat 0).toModel.unpack.isNaN = false
      rw [unpack_zero]
      rfl
    · obtain ⟨m, e, hm, -, -, -, -, hu⟩ := (short_of_le hlt.le).unpack_ofNat hn
      show (Float.ofNat n).toModel.unpack.isNaN = false
      rw [hu]
      rfl
  · show (Float.ofScientific n false 0).toModel.unpack.isNaN = false
    rw [Float.ofScientific, dif_neg (by omega)]
    refine (isNaN_unpack_pack _).trans ?_
    unfold UnpackedFloat.ofScientific
    rw [dif_neg (by omega), if_neg (by norm_num), if_neg (by simp), if_pos (by simp)]
    unfold UnpackedFloat.mul
    dsimp only
    exact isNaN_roundWithAccuracy _ _ _ _

/-- **An integer is rounded to a number.** -/
theorem isNaN_ofInt (i : Int) : (Float.ofInt i).isNaN = false := by
  cases i with
  | ofNat n => exact isNaN_ofNat n
  | negSucc n =>
    have hn : (Float.ofNat (n + 1)).toModel.unpack.isNaN = false := isNaN_ofNat (n + 1)
    refine (isNaN_unpack_pack (Float.ofNat (n + 1)).toModel.unpack.neg).trans ?_
    cases h : (Float.ofNat (n + 1)).toModel.unpack with
    | notANumber => rw [h] at hn; cases hn
    | _ => rfl

end ScriptVM.Decimal
