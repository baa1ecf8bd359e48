/-
# The literals of a source

The constants of a function are shared: a literal that equals an earlier one stands for it.  That is
right for floating point numbers only because a literal has no sign, for `0.0` and `-0.0` are equal
but not the same.  A number without a sign is followed through its bits: the sign bit is clear
(`Decimal.Unsigned`), and it stays so in the arithmetic by which a literal is read.

Main statements: `Decimal.eq_of_beq`, `Decimal.unsigned_of_read` and `Value.eq_of_sameConstant`.
-/
import ScriptVM.Proofs.Decimal.Rational
import ScriptVM.Proofs.Syntax.Legality
import ScriptVM.Proofs.Token.Numerals

namespace ScriptVM

namespace Decimal

open Float.Model (UnpackedFloat Format)
open Float.Model.UnpackedFloat (unpackSign)

/-! ## Bits -/

/-- A floating point number without a minus sign. -/
def Unsigned (x : Float) : Prop :=
  x.toModel.toBits.toBitVec.toNat < 2 ^ 63

/-- The sign bit of a small bit pattern is clear. -/
theorem unpackSign_of_lt {b : BitVec Format.binary64.numBits} (h : b.toNat < 2 ^ 63) :
    unpackSign b = 0#1 := by
  refine BitVec.eq_of_toNat_eq ?_
  have hdiv : b.toNat / 2 ^ (52 + 11) = 0 := Nat.div_eq_of_lt h
  unfold unpackSign
  rw [BitVec.toNat_cast, BitVec.extractLsb_toNat, Nat.shiftRight_eq_div_pow]
  show b.toNat / 2 ^ (52 + 11) % 2 ^ 1 = 0
  rw [hdiv]

/-! ## Parts -/

/-- A number without a minus sign, in its parts. -/
def Positive : UnpackedFloat → Prop
  | .infinity sign | .zero sign | .finite sign .. => sign = .positive
  | .notANumber => True

/-- A clear sign bit is a positive sign. -/
theorem positive_unpack {x : Float} (h : Unsigned x) : Positive x.toModel.unpack := by
  have hsign : UnpackedFloat.Sign.ofBitVec
      (@unpackSign Format.binary64 x.toModel.toBits.toBitVec) = .positive := by
    rw [unpackSign_of_lt h]
    rfl
  have hunpacked := Binary.unpacked x.toModel.toBits.toBitVec
  show Positive (.unpack Format.binary64 x.toModel.toBits.toBitVec)
  generalize UnpackedFloat.unpack Format.binary64 x.toModel.toBits.toBitVec = u at hunpacked
  cases hunpacked with
  | notANumber _ _ => trivial
  | _ => exact hsign

/-! ## Equality -/

/-- A number without a sign is given by its exponent and its mantissa. -/
theorem eq_of_decode {x y : Float} (hx : Unsigned x) (hy : Unsigned y)
    (h : Binary.decode x = Binary.decode y) (hnan : Binary.decode x ≠ .nan) : x = y := by
  have hbits : x.toBits.toNat = y.toBits.toNat := by
    have hx : x.toBits.toNat < 2 ^ 63 := hx
    have hy : y.toBits.toNat < 2 ^ 63 := hy
    unfold Binary.decode at h hnan
    generalize x.toBits.toNat = m at h hnan hx
    generalize y.toBits.toNat = n at h hy
    have hunit : Binary.implicitBit = 2 ^ 52 := rfl
    have hsize : Binary.fieldSize = 2 ^ 11 := rfl
    dsimp only at h hnan
    rw [hunit, hsize] at h hnan
    -- the exponent fields agree and so do the fractions below them
    suffices hfields : m / 2 ^ 52 % 2 ^ 11 = n / 2 ^ 52 % 2 ^ 11 ∧ m % 2 ^ 52 = n % 2 ^ 52 by omega
    split at h
    · next hm =>
      -- an infinity, since it is a number
      rw [if_pos hm] at hnan
      have hfraction : m % 2 ^ 52 = 0 := of_not_not fun hne => hnan (if_neg hne)
      rw [if_pos hfraction] at h
      split at h
      · split at h
        · omega
        · cases h
      · split at h <;> cases h
    · have hn : n / 2 ^ 52 % 2 ^ 11 ≠ 2 ^ 11 - 1 := by
        intro hn
        rw [if_pos hn] at h
        split at h <;> split at h <;> cases h
      rw [if_neg hn] at h
      split at h <;> split at h <;>
        (have hparts := Binary.finite.inj h
         omega)
  obtain ⟨⟨bits, hbits⟩⟩ := x
  obtain ⟨⟨bits', hbits'⟩⟩ := y
  obtain rfl : bits = bits' := UInt64.toNat_inj.1 ‹_›
  rfl

/-- **Equal numbers without a sign are the same.** -/
theorem eq_of_beq {x y : Float} (hx : Unsigned x) (hy : Unsigned y) (h : (x == y) = true) :
    x = y := by
  have hx' := positive_unpack hx
  have hy' := positive_unpack hy
  obtain ⟨hparts, hnumber⟩ : x.toModel.unpack = y.toModel.unpack ∧
      x.toModel.unpack ≠ .notANumber := by
    rcases beq_iff_unpack.1 h with hparts | ⟨⟨sign, hzero⟩, sign', hzero'⟩
    · exact hparts
    · rw [hzero] at hx' ⊢
      rw [hzero'] at hy' ⊢
      obtain rfl : sign = .positive := hx'
      obtain rfl : sign' = .positive := hy'
      exact ⟨rfl, by simp⟩
  refine eq_of_decode hx hy (by rw [Binary.decode_eq, Binary.decode_eq, hparts]) ?_
  rw [Binary.decode_eq]
  cases hunpack : x.toModel.unpack with
  | notANumber => exact absurd hunpack hnumber
  | _ => exact fun hnan => by cases hnan

/-! ## Arithmetic

None of the operations by which a literal is read makes a sign of its own. -/

/-- A bit pattern with a positive sign is small. -/
theorem toNat_packComponents (e : BitVec 11) (m : BitVec 52) :
    (UnpackedFloat.packComponents Format.binary64 .positive e m).toNat < 2 ^ 63 := by
  have happend : UnpackedFloat.packComponents Format.binary64 .positive e m = 0#1 ++ e ++ m := rfl
  have he : e.toNat < 2 ^ 11 := e.isLt
  have hm : m.toNat < 2 ^ 52 := m.isLt
  rw [happend, BitVec.toNat_append, BitVec.toNat_append, Nat.shiftLeft_eq, Nat.shiftLeft_eq,
    show (0#1).toNat * 2 ^ 11 ||| e.toNat = e.toNat by simp, Nat.mul_comm,
    ← Nat.two_pow_add_eq_or_of_lt hm]
  omega

/-- A positive number in parts has no sign in its bit pattern. -/
theorem unsigned_pack {f : UnpackedFloat} (h : Positive f) : Unsigned (.ofModel (.pack f)) := by
  show (UnpackedFloat.pack Format.binary64 f).toNat < 2 ^ 63
  unfold UnpackedFloat.pack
  split
  · exact toNat_packComponents _ _
  · obtain rfl := h
    exact toNat_packComponents _ _
  · obtain rfl := h
    exact toNat_packComponents _ _
  · obtain rfl := h
    dsimp only
    split
    · exact toNat_packComponents _ _
    · split <;> exact toNat_packComponents _ _

/-- Rounding a positive number gives a positive one. -/
theorem positive_round (m : Nat) (e : Int) (accuracy : UnpackedFloat.Accuracy) :
    Positive (UnpackedFloat.roundWithAccuracy Format.binary64 .positive m e accuracy) := by
  rcases Binary.round_cases Format.binary64 .positive m e accuracy with h | ⟨_, _, _, h⟩
  · rw [h]
    rfl
  · rw [h]
    rfl

theorem positive_mul {f g : UnpackedFloat} (hf : Positive f) (hg : Positive g) :
    Positive (UnpackedFloat.mul Format.binary64 f g) := by
  cases f <;> cases g <;> unfold Positive at hf hg <;> subst_vars <;>
    first | trivial | rfl | exact positive_round _ _ _

theorem positive_div {f g : UnpackedFloat} (hf : Positive f) (hg : Positive g) :
    Positive (UnpackedFloat.div Format.binary64 f g) := by
  cases f <;> cases g <;> unfold Positive at hf hg <;> subst_vars <;>
    first | trivial | rfl | exact positive_round _ _ _

theorem unsigned_mul {x y : Float} (hx : Unsigned x) (hy : Unsigned y) : Unsigned (x * y) :=
  unsigned_pack (positive_mul (positive_unpack hx) (positive_unpack hy))

theorem unsigned_div {x y : Float} (hx : Unsigned x) (hy : Unsigned y) : Unsigned (x / y) :=
  unsigned_pack (positive_div (positive_unpack hx) (positive_unpack hy))

/-- An integer that is converted has no sign. -/
theorem unsigned_toFloat (n : UInt64) : Unsigned n.toFloat := by
  refine unsigned_pack ?_
  show Positive (UnpackedFloat.normalize _ n.toNat 0 .positive)
  unfold UnpackedFloat.normalize
  split
  · next h =>
    have hneg := Int.compare_eq_lt.1 h
    omega
  · rfl
  · exact positive_round _ _ _

theorem unsigned_powerOfTen : ∀ x ∈ Float.exactlyRepresentablePowersOfTen.toList, Unsigned x := by
  unfold Unsigned
  decide +kernel

/-- A decimal number that is converted in parts is positive. -/
theorem positive_ofScientific (m : Nat) (e : Int) :
    Positive (UnpackedFloat.ofScientific Format.binary64 m e) := by
  unfold UnpackedFloat.ofScientific
  by_cases hm : m = 0
  · rw [dif_pos hm]
    rfl
  · rw [dif_neg hm]
    exact iteInduction (fun _ => rfl) fun _ => iteInduction (fun _ => rfl) fun _ =>
      iteInduction (fun _ => positive_round _ _ _) fun _ => positive_round _ _ _

/-- A decimal number that is converted has no sign. -/
theorem unsigned_ofScientific (m : Nat) (s : Bool) (e : Nat) :
    Unsigned (Float.ofScientific m s e) := by
  unfold Float.ofScientific
  split
  · next h =>
    have hpower := unsigned_powerOfTen _ (Array.getElem_mem_toList
      (show e < Float.exactlyRepresentablePowersOfTen.size by
        simp [Float.exactlyRepresentablePowersOfTen]
        omega))
    dsimp only
    split
    · exact unsigned_div (unsigned_toFloat _) hpower
    · exact unsigned_mul (unsigned_toFloat _) hpower
  · exact unsigned_pack (positive_ofScientific _ _)

/-! ## Literals -/

/-- The number nearest to a decimal is not less than zero. -/
theorem unsigned_nearest (digits : Nat) (exponent : Int) : Unsigned (nearest digits exponent) := by
  unfold nearest
  split
  · exact unsigned_ofScientific _ _ _
  · split
    · exact unsigned_div (unsigned_ofScientific _ _ _) (unsigned_ofScientific _ _ _)
    · exact unsigned_ofScientific _ _ _

/-- A numeral that can be read has no sign. -/
theorem unsigned_of_readNumeral {text : List Char} {x : Float} (h : readNumeral text = some x) :
    Unsigned x := by
  unfold readNumeral at h
  dsimp only at h
  split at h
  · simp at h
  · obtain ⟨exponent, -, hx⟩ := Option.bind_eq_some_iff.1 h
    obtain rfl := Option.some.inj hx
    exact unsigned_nearest _ _

/-- **A number that is written without a sign has none.** -/
theorem unsigned_of_read {text : String} {x : Float}
    (hsign : takeSign text.toList = (false, text.toList))
    (h : read text = some x) : Unsigned x := by
  rw [read, hsign] at h
  obtain ⟨y, hy, rfl⟩ := Option.map_eq_some_iff.1 h
  rw [if_neg Bool.false_ne_true]
  unfold readMagnitude at hy
  dsimp only at hy
  split at hy
  · obtain rfl := Option.some.inj hy
    exact unsigned_div (unsigned_ofScientific _ _ _) (unsigned_ofScientific _ _ _)
  · split at hy
    · obtain rfl := Option.some.inj hy
      exact unsigned_div (unsigned_ofScientific _ _ _) (unsigned_ofScientific _ _ _)
    · exact unsigned_of_readNumeral hy

end Decimal

namespace Value

/-- A value that can be written in a source: an integer, a number without a sign or a text. -/
def Written : Value → Prop
  | .int _ | .string _ => True
  | .number x => Decimal.Unsigned x
  | _ => False

/-- **A constant stands for itself only.** -/
theorem eq_of_sameConstant {v w : Value} (hv : v.Written) (hw : w.Written)
    (h : v.sameConstant w = true) : v = w := by
  cases v <;> cases w <;>
    first
    | exact absurd hv id
    | exact absurd hw id
    | simp [sameConstant, equals] at h
  · rw [h]
  · rw [Decimal.eq_of_beq hv hw h]
  · rw [h]

end Value

/-- The value of a numeral is one that can be written down. -/
theorem Token.written_of_number? {token : Token} {v : Value}
    (hnumeral : Numeral token.lexeme.toList)
    (h : token.number? = some v) : v.Written := by
  obtain ⟨whole, fraction, hne, hwhole, -, htext⟩ := hnumeral
  obtain ⟨c, rest, rfl⟩ := List.exists_cons_of_ne_nil hne
  have hc : c.isDigit = true := List.all_eq_true.1 hwhole c List.mem_cons_self
  have hsign : Decimal.takeSign token.lexeme.toList = (false, token.lexeme.toList) := by
    rcases htext with htext | htext <;> rw [htext]
    · exact Decimal.takeSign_of_isDigit hc
    · exact Decimal.takeSign_of_isDigit hc
  unfold Token.number? at h
  split at h
  · obtain ⟨x, hx, rfl⟩ := Option.map_eq_some_iff.1 h
    exact Decimal.unsigned_of_read hsign hx
  · obtain ⟨i, -, rfl⟩ := Option.map_eq_some_iff.1 h
    trivial

end ScriptVM
