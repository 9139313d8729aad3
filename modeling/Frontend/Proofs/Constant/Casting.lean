import Frontend.Proofs.Constant.Conversion
import Frontend.Proofs.Floating.Words

/-!
# Casts between integers and floating-point numbers

An integer constant becomes the double next to its value, and by way of it a single; a double that is
a whole number becomes this number in an integer type that has it. Both ways lead through a signed
64-bit word. So the upper half of the unsigned words comes out as a negative number, and cannot be
reached from a double.
-/

namespace Frontend.Constant

open Floating
open Float.Model.UnpackedFloat (Sign)

variable {c d : Constant} {f : Float} {x y : ℤ}

def signedWord (x : ℤ) : ℤ := if x < 2 ^ 63 then x else x - 2 ^ 64

theorem toInt_ofInt_eq (hx : Small x) : (Int64.ofInt x).toInt = signedWord x := by
  have := hx.low
  have := hx.high
  have size : ((Int64.size : ℕ) : ℤ) = 2 ^ 64 := rfl
  rw [Int64.toInt_ofInt, Int.bmod_def, size, signedWord]
  split <;> split <;> omega

section ToFloat

theorem asFloat_of_integer (hx : c.integer? = some x) :
    c.asFloat? = some (ofWord (.ofInt x)) := by
  cases c <;> cases hx <;> rfl

theorem convert_to_double (hx : c.integer? = some x) :
    c.convert? .double = some (double (ofWord (.ofInt x))) := by
  have other : c.baseType ≠ .double := by cases c <;> cases hx <;> nofun
  rw [convert?, if_neg other, asFloat_of_integer hx, Option.map_some]

theorem convert_to_float (hx : c.integer? = some x) :
    c.convert? .float = some (float (narrow (ofWord (.ofInt x)))) := by
  have other : c.baseType ≠ .float := by cases c <;> cases hx <;> nofun
  rw [convert?, if_neg other, asFloat_of_integer hx, Option.map_some]

theorem double_isNearest (hx : Small x) :
    IsNearest .binary64 (signedWord x) (ofWord (.ofInt x)).toModel.unpack := by
  rw [← toInt_ofInt_eq hx]
  exact ofWord_isNearest _

theorem double_isNegative (hx : Small x) :
    isNegative (ofWord (.ofInt x)).toModel.unpack = true ↔ x < 0 ∨ 2 ^ 63 ≤ x := by
  have := hx.high
  rw [isNegative_ofWord, toInt_ofInt_eq hx, signedWord]
  split <;> omega

/-- One of the doubles, which is nearer to a positive number than all negative ones. -/
theorem one_isOf : ∃ u, IsOf .binary64 u ∧ value? u = some 1 := by
  have short : |(1 : Int64).toInt| < 2 ^ 53 := by decide
  exact ⟨_, (ofWord_isNearest 1).1, (value_ofWord short).trans (by rfl)⟩

/-- The upper half of the unsigned words is taken for negative. -/
theorem double_isNearest_iff (hx : Small x) :
    IsNearest .binary64 x (ofWord (.ofInt x)).toModel.unpack ↔ x < 2 ^ 63 := by
  constructor
  · intro nearest
    by_contra upper
    -- a negative double is farther away than the double of one
    obtain ⟨u, hu, hone⟩ := one_isOf
    have negative := (double_isNegative hx).2 (.inr (not_lt.1 upper))
    refine not_isNearest_of_isNegative negative hu hone one_pos ?_ nearest
    have : (1 : ℤ) ≤ x := by omega
    exact_mod_cast this
  · intro lower
    have := double_isNearest hx
    rwa [signedWord, if_pos lower] at this

/-- A value with no more bits than the mantissa of a double is rounded once only. -/
theorem single_isNearest (hx : Small x) (short : |x| < 2 ^ 53) :
    IsNearest .binary32 x (narrow (ofWord (.ofInt x))).toModel.unpack := by
  have lower : signedWord x = x := if_pos (by have := (abs_lt.1 short).2; omega)
  obtain ⟨⟨v, hv, nearest⟩, -⟩ := narrow_ofWord (.ofInt x)
  rw [value_ofWord (by rwa [toInt_ofInt_eq hx, lower]), toInt_ofInt_eq hx, lower] at hv
  cases hv
  exact nearest

end ToFloat

section FromFloat

/-- A word that is too large stops at the greatest signed one. -/
theorem toInt_ofIntClamp_eq (hx : Small x) :
    (Int64.ofIntClamp x).toInt = min x (2 ^ 63 - 1) := by
  have low := hx.low
  have least : Int64.minValue.toInt = -2 ^ 63 := by decide
  have greatest : Int64.maxValue.toInt = 2 ^ 63 - 1 := by decide
  by_cases fits : x ≤ Int64.maxValue.toInt
  · rw [Int64.toInt_ofIntClamp (by omega) fits, min_eq_left (by omega)]
  · rw [Int64.ofIntClamp, dif_pos (by omega), dif_neg fits, greatest, min_eq_right (by omega)]

/-- A type that has a value has what is between zero and it. -/
theorem exists_min (hx : c.integer? = some x) :
    ∃ d : Constant, d.baseType = c.baseType ∧ d.integer? = some (min x (2 ^ 63 - 1)) := by
  have fits (h : x ≤ 2 ^ 63 - 1) :
      ∃ d : Constant, d.baseType = c.baseType ∧ d.integer? = some (min x (2 ^ 63 - 1)) :=
    ⟨c, rfl, by rw [hx, min_eq_left h]⟩
  cases c <;> cases hx
  case int8 v => exact fits (by have := v.toInt_lt; omega)
  case uint8 v => exact fits (by have := v.toNat_lt; omega)
  case int16 v => exact fits (by have := v.toInt_lt; omega)
  case uint16 v => exact fits (by have := v.toNat_lt; omega)
  case int v => exact fits (by have := v.toInt_lt; omega)
  case uint v => exact fits (by have := v.toNat_lt; omega)
  case int64 v => exact fits (by have := v.toInt_lt; omega)
  case uint64 v =>
    rcases le_or_gt (v.toNat : ℤ) (2 ^ 63 - 1) with lower | upper
    · exact fits lower
    · rw [min_eq_right upper.le]
      exact ⟨uint64 (.ofNat (2 ^ 63 - 1)), rfl, rfl⟩

theorem convert_of_double (hx : c.integer? = some x) (hf : value? f.toModel.unpack = some (x : ℚ)) :
    ∃ d, (double f).convert? c.baseType = some d ∧ d.baseType = c.baseType ∧
      d.integer? = some (min x (2 ^ 63 - 1)) := by
  obtain ⟨d, htype, hd⟩ := exists_min hx
  obtain ⟨bits, hb⟩ := bits_of_integer hx
  have other : (double f).baseType ≠ c.baseType := by cases c <;> cases hx <;> nofun
  have same := isWord_self hd
  rw [htype] at same
  obtain ⟨e, he, word⟩ := exists_wrapTo hb (min x (2 ^ 63 - 1))
  refine ⟨d, ?_, htype, hd⟩
  rw [convert_to_integer hb other, toWord?, Option.bind_some, toWord_eq hf, ofInt64?,
    toInt_ofIntClamp_eq (small_of_integer hx), he, word.unique same]

end FromFloat

/-- An integer constant of value `x` becomes a double and a single as if it were a signed word: the
double is the one next to the value in the lower half of the unsigned words, and in no other case,
and both are negative in the upper half. The single is the one next to the double, and with up to 53
bits also next to the value. A double of value `x` becomes the constant again, except that in the
upper half it becomes the greatest signed word instead. -/
theorem cast_through_signed_word (hx : c.integer? = some x) :
    (∃ f g, c.asFloat? = some f ∧ c.convert? .double = some (double f) ∧
      c.convert? .float = some (float g) ∧
      IsNearest .binary64 (signedWord x) f.toModel.unpack ∧
      (IsNearest .binary64 x f.toModel.unpack ↔ x < 2 ^ 63) ∧
      (∃ v, value? f.toModel.unpack = some v ∧ IsNearest .binary32 v g.toModel.unpack) ∧
      (|x| < 2 ^ 53 → IsNearest .binary32 x g.toModel.unpack) ∧
      (isNegative f.toModel.unpack = true ↔ x < 0 ∨ 2 ^ 63 ≤ x) ∧
      (isNegative g.toModel.unpack = true ↔ x < 0 ∨ 2 ^ 63 ≤ x)) ∧
    ∀ f, value? f.toModel.unpack = some (x : ℚ) →
      ∃ d, (double f).convert? c.baseType = some d ∧ d.baseType = c.baseType ∧
        d.integer? = some (min x (2 ^ 63 - 1)) ∧ (d = c ↔ x < 2 ^ 63) := by
  have small := small_of_integer hx
  obtain ⟨single, sign⟩ := narrow_ofWord (.ofInt x)
  refine ⟨⟨_, _, asFloat_of_integer hx, convert_to_double hx, convert_to_float hx,
    double_isNearest small, double_isNearest_iff small, single, single_isNearest small,
    double_isNegative small, by rw [sign, double_isNegative small]⟩, fun f hf => ?_⟩
  obtain ⟨d, hd, htype, value⟩ := convert_of_double hx hf
  refine ⟨d, hd, htype, value, ?_⟩
  constructor
  · rintro rfl
    have := Option.some.inj (hx.symm.trans value)
    omega
  · intro lower
    rw [min_eq_left (by omega)] at value
    have word := isWord_self value
    rw [htype] at word
    exact word.unique (isWord_self hx)

/-- Two hundred becomes a double and comes back as a byte; the greatest word of 64 bits becomes minus
one. -/
theorem cast_through_signed_word_there_and_back :
    (∃ f g, (uint8 200).convert? .double = some (double f) ∧
      (uint8 200).convert? .float = some (float g) ∧ IsNearest .binary64 200 f.toModel.unpack ∧
      IsNearest .binary32 200 g.toModel.unpack ∧ isNegative f.toModel.unpack = false ∧
      (double f).convert? .uint8 = some (uint8 200)) ∧
    ∃ f, (uint64 (-1)).convert? .double = some (double f) ∧
      IsNearest .binary64 (-1) f.toModel.unpack := by
  have byte := @cast_through_signed_word (uint8 200) 200 rfl
  have greatest := @cast_through_signed_word (uint64 (-1)) (2 ^ 64 - 1) rfl
  obtain ⟨⟨f, g, as, hf, hg, -, nearest, -, short, sign, -⟩, back⟩ := byte
  obtain ⟨⟨f', -, -, hf', -, nearest', -⟩, -⟩ := greatest
  have value : value? f.toModel.unpack = some ((200 : ℤ) : ℚ) := by
    cases as
    exact (value_ofWord (by decide)).trans rfl
  obtain ⟨d, hd, -, -, same⟩ := back f value
  obtain rfl := same.2 (by decide)
  have lower : IsNearest .binary64 (200 : ℤ) f.toModel.unpack := nearest.2 (by decide)
  have single : IsNearest .binary32 (200 : ℤ) g.toModel.unpack := short (by decide)
  refine ⟨⟨f, g, hf, hg, by exact_mod_cast lower, by exact_mod_cast single, ?_, hd⟩, f', hf', ?_⟩
  · exact Bool.eq_false_iff.2 fun h => by have := sign.1 h; omega
  · have wrapped : signedWord (2 ^ 64 - 1) = -1 := by decide
    rw [wrapped] at nearest'
    exact_mod_cast nearest'

/-- The least value of the upper half becomes a negative double, and is not what the double of this
value becomes. A signed word becomes a single that is not next to it, since it is rounded twice: first
to the middle between two singles, then away from the nearer one. -/
theorem cast_of_upper_half_and_of_long_word :
    (uint64 0x8000000000000000).integer? = some (2 ^ 63) ∧
    (∃ f, (uint64 0x8000000000000000).asFloat? = some f ∧
      (uint64 0x8000000000000000).convert? .double = some (double f) ∧
      isNegative f.toModel.unpack = true ∧ ¬ IsNearest .binary64 (2 ^ 63) f.toModel.unpack) ∧
    (∃ f, value? f.toModel.unpack = some (2 ^ 63) ∧
      (double f).convert? .uint64 = some (uint64 0x7fffffffffffffff)) ∧
    ∃ g, (int64 1152921573326323713).convert? .float = some (float g) ∧
      ¬ IsNearest .binary32 1152921573326323713 g.toModel.unpack := by
  have upper : (uint64 0x8000000000000000).integer? = some (2 ^ 63) := rfl
  refine ⟨upper, ?_, ?_, ?_⟩
  · have small := small_of_integer upper
    refine ⟨_, asFloat_of_integer upper, convert_to_double upper,
      (double_isNegative small).2 (.inr le_rfl), fun nearest => ?_⟩
    have := (double_isNearest_iff small).1 (by exact_mod_cast nearest)
    omega
  · have unpacked : (Float.ofBits 0x43e0000000000000).toModel.unpack =
        .finite .positive (2 ^ 52) 11 (by decide) := rfl
    have value : value? (Float.ofBits 0x43e0000000000000).toModel.unpack = some (2 ^ 63) := by
      rw [unpacked, value_finite]
      norm_num [Sign.apply]
    have word : toWord (.ofBits 0x43e0000000000000) = Int64.maxValue := by
      rw [toWord_eq (y := 2 ^ 63) (by exact_mod_cast value)]
      rfl
    have other : (double (.ofBits 0x43e0000000000000)).baseType ≠ .uint64 := by simp [baseType]
    refine ⟨_, value, ?_⟩
    have wide : BaseType.uint64.bits? = some 64 := rfl
    rw [convert_to_integer wide other, toWord?, word]
    rfl
  · refine ⟨_, convert_to_float rfl, ?_⟩
    have rounded : (narrow (ofWord (.ofInt 1152921573326323713))).toModel.unpack =
        .finite .positive (2 ^ 23) 37 (by decide) := rfl
    have next : IsOf .binary32 (.finite .positive (2 ^ 23 + 1) 37 (by decide)) :=
      ⟨0x5D800001, rfl⟩
    change ¬ IsNearest .binary32 1152921573326323713
      (narrow (ofWord (.ofInt 1152921573326323713))).toModel.unpack
    rw [rounded]
    rintro ⟨-, v, hv, nearest⟩
    cases hv
    have nearer := (nearest _ _ next rfl).1
    norm_num [Sign.apply] at nearer

end Frontend.Constant
