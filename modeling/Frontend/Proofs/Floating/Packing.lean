import Frontend.Constant.Floating
import Mathlib.Algebra.Order.Field.Power
import Mathlib.Algebra.Order.Field.Rat
import Mathlib.Tactic.Linarith
import Mathlib.Tactic.Positivity
import Mathlib.Tactic.Ring

/-!
# Numbers of a floating-point format

The value of a number that is taken apart, and the values that a format has: whole numbers with no
more bits than a mantissa, times a power of two. A number with a full mantissa is packed into the bits
of its format without loss.
-/

namespace Frontend.Floating

open Float.Model (Format UnpackedFloat)
open Float.Model.UnpackedFloat

variable {format : Format} {u : UnpackedFloat} {exponent : ℤ} {w : ℚ}

def value? : UnpackedFloat → Option ℚ
  | .zero _ => some 0
  | .finite sign mantissa exponent _ => some (sign.apply mantissa * 2 ^ exponent)
  | _ => none

theorem value_finite {sign : Sign} {m : ℕ} {e : ℤ} {hm : 0 < m} :
    value? (.finite sign m e hm) = some ((sign.apply m : ℚ) * 2 ^ e) := rfl

def IsOf (format : Format) (u : UnpackedFloat) : Prop := ∃ b, unpack format b = u

theorem abs_apply (sign : Sign) (x : ℤ) : |sign.apply x| = |x| := by
  cases sign
  · exact abs_neg x
  · rfl

theorem apply_zero (sign : Sign) : sign.apply 0 = 0 := by cases sign <;> rfl

theorem mantissaBits_eq (format : Format) :
    format.mantissaBits = 1 + format.mantissaBitsWithoutImplicit := rfl

theorem minExponent_eq (format : Format) :
    format.minExponent = 1 - (format.exponentBias + format.mantissaBitsWithoutImplicit) := by
  have positive : 1 ≤ 2 ^ (format.exponentBits - 1) := Nat.one_le_two_pow
  rw [Format.minExponent, Format.exponentBias, mantissaBits_eq, Nat.cast_sub positive]
  push_cast
  ring

/-- The exponents above the bias are as many as those up to it. -/
theorem exponents_eq (format : Format) :
    2 ^ format.exponentBits = 2 * format.exponentBias + 2 := by
  have positive : 1 ≤ 2 ^ (format.exponentBits - 1) := Nat.one_le_two_pow
  have double : 2 ^ format.exponentBits = 2 * 2 ^ (format.exponentBits - 1) := by
    rw [← pow_succ', Nat.sub_add_cancel format.he]
  rw [Format.exponentBias]
  omega

theorem mantissas_eq (format : Format) :
    2 ^ format.mantissaBits = 2 * 2 ^ format.mantissaBitsWithoutImplicit := by
  rw [mantissaBits_eq, Nat.add_comm, pow_succ']

/-- The bits of a mantissa behind the leading one. -/
theorem toNat_leadingOne {bits : ℕ} (v : BitVec bits) : (1#1 ++ v).toNat = 2 ^ bits + v.toNat := by
  rw [BitVec.toNat_append, ← Nat.shiftLeft_add_eq_or_of_lt v.isLt, BitVec.toNat_ofNat,
    Nat.shiftLeft_eq, Nat.mod_eq_of_lt (by decide), Nat.one_mul]

theorem IsOf.value_eq (h : IsOf format u) (hw : value? u = some w) :
    ∃ k e : ℤ, |k| < 2 ^ format.mantissaBits ∧ w = k * 2 ^ e := by
  obtain ⟨b, rfl⟩ := h
  unfold unpack at hw
  dsimp only at hw
  by_cases last : unpackExponent b = -1#(format.exponentBits)
  · rw [if_pos last] at hw
    split at hw <;> cases hw
  · rw [if_neg last] at hw
    by_cases first : unpackExponent b = 0#(format.exponentBits)
    · rw [if_pos first] at hw
      by_cases none : unpackMantissa b = 0#(format.mantissaBitsWithoutImplicit)
      · rw [dif_pos none] at hw
        cases hw
        exact ⟨0, 0, by positivity, by simp⟩
      · -- without the leading one
        rw [dif_neg none] at hw
        cases hw
        refine ⟨_, _, ?_, rfl⟩
        rw [abs_apply, Nat.abs_cast]
        have := mantissas_eq format
        have := (unpackMantissa b).isLt
        exact_mod_cast (by omega : (unpackMantissa b).toNat < 2 ^ format.mantissaBits)
    · rw [if_neg first] at hw
      cases hw
      refine ⟨_, _, ?_, rfl⟩
      rw [abs_apply, Nat.abs_cast]
      exact_mod_cast (1#1 ++ unpackMantissa b).isLt

theorem finite_congr {sign sign' : Sign} {m m' : ℕ} {e e' : ℤ} {hm : 0 < m} {hm' : 0 < m'}
    (hsign : sign = sign') (hmantissa : m = m') (he : e = e') :
    UnpackedFloat.finite sign m e hm = .finite sign' m' e' hm' := by
  subst hsign hmantissa he
  rfl

theorem sign_packComponents (sign : Sign) (e : BitVec format.exponentBits)
    (m : BitVec format.mantissaBitsWithoutImplicit) :
    Sign.ofBitVec (unpackSign (packComponents format sign e m)) = sign := by
  have kept : unpackSign (packComponents format sign e m) = sign.toBitVec := by
    ext i hi
    obtain rfl : i = 0 := by omega
    unfold unpackSign packComponents
    simp +arith [BitVec.extractLsb, BitVec.getElem_append]
  rw [kept]
  cases sign <;> rfl

/-- A number whose mantissa has as many bits as the format has for it, the last one at `exponent`. -/
def Fills (format : Format) (sign : Sign) (exponent : ℤ) (u : UnpackedFloat) : Prop :=
  ∃ mantissa hm, u = .finite sign mantissa exponent hm ∧
    mantissa.log2 = format.mantissaBitsWithoutImplicit

/-- Such a number is packed without loss, unless its exponent is out of range. -/
theorem Fills.unpack_pack {sign : Sign} (h : Fills format sign exponent u)
    (least : format.minExponent ≤ exponent)
    (greatest : exponent + format.mantissaBitsWithoutImplicit ≤ format.exponentBias) :
    unpack format (pack format u) = u := by
  obtain ⟨mantissa, hm, rfl, length⟩ := h
  obtain ⟨full, fits⟩ := (Nat.log2_eq_iff hm.ne').1 length
  have lengthIs : mantissa.log2 + 1 = format.mantissaBits := by
    rw [length, mantissaBits_eq, Nat.add_comm]
  rw [minExponent_eq] at least
  set biased := (exponent + format.exponentBias + format.mantissaBitsWithoutImplicit).toNat with hb
  have capacity := exponents_eq format
  have biasedBits : (BitVec.ofNat format.exponentBits biased).toNat = biased := by
    rw [BitVec.toNat_ofNat, Nat.mod_eq_of_lt (by omega)]
  have notLast : BitVec.ofNat format.exponentBits biased ≠ -1#(format.exponentBits) := by
    intro h
    have := congrArg BitVec.toNat h
    rw [biasedBits, BitVec.neg_one_eq_allOnes, BitVec.toNat_allOnes] at this
    omega
  have notFirst : BitVec.ofNat format.exponentBits biased ≠ 0#(format.exponentBits) := by
    intro h
    have := congrArg BitVec.toNat h
    rw [biasedBits, BitVec.toNat_ofNat, Nat.zero_mod] at this
    omega
  have mantissaBits : (1#1 ++ BitVec.ofNat format.mantissaBitsWithoutImplicit mantissa).toNat =
      mantissa := by
    rw [pow_succ] at fits
    rw [toNat_leadingOne, BitVec.toNat_ofNat, Nat.mod_eq_sub_mod full, Nat.mod_eq_of_lt (by omega)]
    omega
  have packed : pack format (.finite sign mantissa exponent hm) =
      packComponents format sign (BitVec.ofNat _ biased) (BitVec.ofNat _ mantissa) := by
    unfold pack
    dsimp only
    rw [if_neg (by omega), if_pos lengthIs]
  rw [packed]
  unfold unpack
  dsimp only
  rw [if_neg (by rwa [unpackExponent_packComponents]),
    if_neg (by rwa [unpackExponent_packComponents])]
  apply finite_congr
  · exact sign_packComponents sign _ _
  · rw [unpackMantissa_packComponents, mantissaBits]
  · rw [unpackExponent_packComponents, biasedBits]
    omega

end Frontend.Floating
