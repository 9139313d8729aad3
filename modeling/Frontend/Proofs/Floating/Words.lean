import Frontend.Proofs.Floating.Rounding

/-!
# Signed words and floating-point numbers

A word becomes the double next to it, and keeps its sign; a double that is a whole number becomes the
word of this number or, where there is none, the last one in its direction. A double that was a word
is in the range of the singles, and becomes the single next to it.
-/

namespace Frontend.Floating

open Float.Model (Format UnpackedFloat)
open Float.Model.UnpackedFloat

section Zero

variable {u : UnpackedFloat} {v : ℚ}

theorem zero_isNearest (format : Format) (sign : Sign) : IsNearest format 0 (.zero sign) := by
  have unpacked : unpack format (packedZero format sign) = .zero sign := by
    have last : (0 : BitVec format.exponentBits) ≠ -1#_ := by simp [Nat.ne_of_gt format.he]
    unfold unpack packedZero
    dsimp only
    rw [if_neg (by rwa [unpackExponent_packComponents]),
      if_pos (by rw [unpackExponent_packComponents]; rfl),
      dif_pos (by rw [unpackMantissa_packComponents]; rfl), sign_packComponents]
  refine ⟨⟨_, unpacked⟩, 0, rfl, fun other w _ _ => ⟨?_, fun _ => .inr trivial⟩⟩
  rw [sub_self, abs_zero]
  exact abs_nonneg _

/-- Minus in front, also of zero. -/
def isNegative : UnpackedFloat → Bool
  | .zero sign | .infinity sign | .finite sign .. => sign == .negative
  | .notANumber => false

theorem value_nonpos (hu : isNegative u = true) (hv : value? u = some v) : v ≤ 0 := by
  cases u with
  | zero => cases hv; exact le_rfl
  | finite sign m e hm =>
    cases hv
    cases sign
    · simp only [Sign.apply]
      push_cast
      have : (0 : ℚ) < m * 2 ^ e := by positivity
      linarith
    · cases hu
  | _ => cases hv

/-- Zero is between a number with a minus and a positive one of the format, and nearer to the latter
than the former. -/
theorem not_isNearest_of_isNegative {format : Format} {one : UnpackedFloat} {x : ℚ}
    (hu : isNegative u = true) (hone : IsOf format one) (hv : value? one = some v) (positive : 0 < v)
    (hx : v ≤ x) : ¬ IsNearest format x u := by
  rintro ⟨-, w, hw, nearest⟩
  have below := value_nonpos hu hw
  have := (nearest one v hone hv).1
  rw [abs_of_nonneg (by linarith), abs_of_nonneg (by linarith)] at this
  linarith

end Zero

section Integers

variable {sign : Sign} {m : ℕ}

theorem exists_apply {x : ℤ} (hx : x ≠ 0) :
    ∃ (sign : Sign) (m : ℕ), 0 < m ∧ x = sign.apply m ∧ (sign = .negative ↔ x < 0) := by
  rcases lt_or_gt_of_ne hx with negative | positive
  · exact ⟨.negative, x.natAbs, by omega, by rw [Sign.apply]; omega, iff_of_true rfl negative⟩
  · exact ⟨.positive, x.natAbs, by omega, by rw [Sign.apply]; omega,
      iff_of_false (fun same => by cases same) (by omega)⟩

theorem ofInt_apply (format : Format) (sign : Sign) (hm : 0 < m) :
    ofInt format (sign.apply m) = round format sign m 0 := by
  unfold ofInt UnpackedFloat.normalize
  cases sign
  · have side : compare (Sign.negative.apply (m : ℤ)) 0 = .lt :=
      Int.compare_eq_lt.2 (by simp only [Sign.apply]; omega)
    rw [side]
    simp [Sign.apply]
  · have side : compare (Sign.positive.apply (m : ℤ)) 0 = .gt :=
      Int.compare_eq_gt.2 (by simp only [Sign.apply]; omega)
    rw [side]
    simp [Sign.apply]

/-- A whole number is rounded to itself. -/
theorem RoundsTo.eq_of_natCast {k n : ℕ} (h : RoundsTo k n) : n = k := by
  have near := abs_le.1 h.1
  have above : (n : ℚ) < k + 1 := by linarith
  have below : (k : ℚ) < n + 1 := by linarith
  have above : n < k + 1 := by exact_mod_cast above
  have below : k < n + 1 := by exact_mod_cast below
  omega

end Integers

section Words

variable {x : Int64} {f : Float} {sign : Sign} {m : ℕ} {e : ℤ} {v : ℚ}

theorem log2_word (hm : 0 < m) (hx : x.toInt = sign.apply m) : m.log2 < 64 := by
  rw [Nat.log2_lt hm.ne']
  have low := x.le_toInt
  have high := x.toInt_lt
  rw [hx] at low high
  cases sign <;> simp only [Sign.apply] at low high <;> omega

/-- The last place of a word is at most eleven bits in front of the ones, well in the range of the
doubles. -/
theorem lastPlace_word (hm : 0 < m) (hx : x.toInt = sign.apply m) :
    lastPlace .binary64 m 0 = m.log2 - 52 ∧
      Format.binary64.minExponent < lastPlace .binary64 m 0 ∧
      lastPlace .binary64 m 0 + Format.binary64.mantissaBits ≤ Format.binary64.exponentBias := by
  have length := log2_word hm hx
  have least : Format.binary64.minExponent = -1074 := by decide
  have bits : Format.binary64.mantissaBits = 53 := by decide
  have bias : Format.binary64.exponentBias = 1023 := by decide
  rw [lastPlace_eq, least, bits, bias]
  omega

theorem unpack_ofWord (hm : 0 < m) (hx : x.toInt = sign.apply m) :
    (ofWord x).toModel.unpack = unpack .binary64 (pack .binary64 (round .binary64 sign m 0)) := by
  rw [← ofInt_apply _ sign hm, ← hx]
  rfl

theorem unpack_ofWord_zero (hx : x.toInt = 0) : (ofWord x).toModel.unpack = .zero .positive := by
  have : x = 0 := Int64.toInt_inj.1 (by rw [hx]; rfl)
  subst this
  rfl

theorem ofWord_placed (hm : 0 < m) (hx : x.toInt = sign.apply m) :
    ∃ (n : ℕ) (e : ℤ), RoundsTo (m * 2 ^ (52 - m.log2 : ℤ)) n ∧
      (ofWord x).toModel.unpack = placed .binary64 sign n (m.log2 - 52) ∧ -52 ≤ e ∧ e ≤ 12 ∧
      Fills .binary64 sign e (ofWord x).toModel.unpack := by
  obtain ⟨place, normal, small⟩ := lastPlace_word hm hx
  have length := log2_word hm hx
  obtain ⟨n, e, rounds, result, low, high, fills⟩ := unpack_round sign hm normal small
  rw [place] at rounds result low high
  rw [← unpack_ofWord hm hx] at result fills
  rw [zero_sub, neg_sub] at rounds
  exact ⟨n, e, rounds, result, by omega, by omega, fills⟩

theorem ofWord_isNearest (x : Int64) : IsNearest .binary64 x.toInt (ofWord x).toModel.unpack := by
  by_cases zero : x.toInt = 0
  · rw [zero, unpack_ofWord_zero zero]
    exact zero_isNearest _ _
  · obtain ⟨sign, m, hm, hx, -⟩ := exists_apply zero
    obtain ⟨-, normal, small⟩ := lastPlace_word hm hx
    have := round_isNearest sign hm normal small
    rwa [zpow_zero, mul_one, ← hx, ← unpack_ofWord hm hx] at this

theorem isNegative_ofWord (x : Int64) :
    isNegative (ofWord x).toModel.unpack = true ↔ x.toInt < 0 := by
  by_cases zero : x.toInt = 0
  · rw [zero, unpack_ofWord_zero zero]
    decide
  · obtain ⟨sign, m, hm, hx, side⟩ := exists_apply zero
    obtain ⟨_, _, -, -, -, -, _, _, full, -⟩ := ofWord_placed hm hx
    rw [full, ← side]
    cases sign with
    | positive => exact iff_of_false nofun nofun
    | negative => exact iff_of_true rfl rfl

/-- A word with no more bits than a mantissa is not rounded. -/
theorem value_ofWord (short : |x.toInt| < 2 ^ 53) :
    value? (ofWord x).toModel.unpack = some (x.toInt : ℚ) := by
  by_cases zero : x.toInt = 0
  · rw [zero, unpack_ofWord_zero zero]
    rfl
  · obtain ⟨sign, m, hm, hx, -⟩ := exists_apply zero
    obtain ⟨n, _, rounds, result, -⟩ := ofWord_placed hm hx
    rw [hx, abs_apply, Nat.abs_cast] at short
    have length : m.log2 < 53 := (Nat.log2_lt hm.ne').2 (by exact_mod_cast short)
    obtain ⟨zeros, hzeros⟩ : ∃ zeros : ℕ, (52 - m.log2 : ℤ) = zeros := ⟨52 - m.log2, by omega⟩
    have whole : RoundsTo ((m * 2 ^ zeros : ℕ) : ℚ) n := by
      rw [hzeros, zpow_natCast] at rounds
      exact_mod_cast rounds
    rw [result, value_placed, whole.eq_of_natCast, hx, show (m.log2 - 52 : ℤ) = -zeros by omega]
    cases sign <;> simp [Sign.apply, zpow_neg]

/-- A double with a full mantissa and an exponent that a single can have. -/
theorem narrow_of_fills (h : Fills .binary64 sign e f.toModel.unpack) (low : -178 < e)
    (high : e < 75) :
    (∃ v, value? f.toModel.unpack = some v ∧ IsNearest .binary32 v (narrow f).toModel.unpack) ∧
      isNegative (narrow f).toModel.unpack = isNegative f.toModel.unpack := by
  obtain ⟨m, hm, full, length⟩ := h
  have least : Format.binary32.minExponent = -149 := by decide
  have bits : Format.binary32.mantissaBits = 24 := by decide
  have bias : Format.binary32.exponentBias = 127 := by decide
  have double : Format.binary64.mantissaBitsWithoutImplicit = 52 := by decide
  have place : lastPlace .binary32 m e = e + 29 := by
    rw [lastPlace_eq, length, double, least, bits]
    omega
  have normal : Format.binary32.minExponent < lastPlace .binary32 m e := by
    rw [place, least]
    omega
  have small : lastPlace .binary32 m e + Format.binary32.mantissaBits ≤
      Format.binary32.exponentBias := by
    rw [place, bits, bias]
    omega
  have run : (narrow f).toModel.unpack =
      unpack .binary32 (pack .binary32 (fit .binary32 f.toModel.unpack)) := rfl
  rw [full] at run ⊢
  rw [run]
  obtain ⟨_, _, -, -, -, -, _, _, rounded, -⟩ := unpack_round sign hm normal small
  refine ⟨⟨_, rfl, round_isNearest sign hm normal small⟩, ?_⟩
  exact (congrArg isNegative rounded).trans rfl

theorem narrow_ofWord (x : Int64) :
    (∃ v, value? (ofWord x).toModel.unpack = some v ∧
      IsNearest .binary32 v (narrow (ofWord x)).toModel.unpack) ∧
    isNegative (narrow (ofWord x)).toModel.unpack = isNegative (ofWord x).toModel.unpack := by
  by_cases zero : x.toInt = 0
  · have : x = 0 := Int64.toInt_inj.1 (by rw [zero]; rfl)
    subst this
    have single : (narrow (ofWord 0)).toModel.unpack = .zero .positive := rfl
    rw [unpack_ofWord_zero zero, single]
    exact ⟨⟨0, rfl, zero_isNearest _ _⟩, rfl⟩
  · obtain ⟨sign, m, hm, hx, -⟩ := exists_apply zero
    obtain ⟨_, e, -, -, low, high, fills⟩ := ofWord_placed hm hx
    exact narrow_of_fills fills (by omega) (by omega)

/-- A whole number has no fraction to lose. -/
theorem roundToInt_eq {y : ℤ} (hy : (sign.apply m : ℚ) * 2 ^ e = y) : roundToInt sign m e = y := by
  have run : roundToInt sign m e = sign.apply
      (ExtendedMantissa.ofMantissaAndAccuracy (m <<< (e - 0).toNat) .exact >>>
        (0 - (e - (e - 0).toNat)).toNat).mantissa := rfl
  rw [sub_zero, zero_sub, neg_sub] at run
  set zeros := e.toNat with hzeros
  set shift := ((zeros : ℤ) - e).toNat with hshift
  set em := ExtendedMantissa.ofMantissaAndAccuracy (m <<< zeros) .exact >>> shift with hem
  have stands : Stands em (m * 2 ^ e) := stands_shifted m (by omega)
  have whole : (m : ℚ) * 2 ^ e = sign.apply y := by
    cases sign <;> simp only [Sign.apply] at hy ⊢ <;> push_cast at hy ⊢ <;> linarith
  obtain ⟨low, high⟩ := stands.mantissa_le
  rw [whole] at low high
  have low : (em.mantissa : ℤ) ≤ sign.apply y := by exact_mod_cast low
  have high : sign.apply y < em.mantissa + 1 := by exact_mod_cast high
  rw [run, show (em.mantissa : ℤ) = sign.apply y by omega, apply_apply]

theorem toWord_eq {y : ℤ} (hy : value? f.toModel.unpack = some (y : ℚ)) :
    toWord f = Int64.ofIntClamp y := by
  have run : toWord f =
      .ofIntClamp (toInt Int64.minValue.toInt Int64.maxValue.toInt f.toModel.unpack) := rfl
  rw [run]
  congr 1
  cases h : f.toModel.unpack with
  | zero =>
    rw [h] at hy
    exact_mod_cast Option.some.inj hy
  | finite sign m e hm =>
    rw [h] at hy
    exact roundToInt_eq (Option.some.inj hy)
  | _ => rw [h] at hy; cases hy

end Words

end Frontend.Floating
