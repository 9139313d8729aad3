import Frontend.Proofs.Floating.Packing

/-!
# Rounding to the nearest number

A number is rounded by shifting its mantissa to the right, with two bits behind it that tell on which
side of the middle the rest is. The result is the nearest number that the format has, and in a tie
its mantissa is even.
-/

namespace Frontend.Floating

open Float.Model (Format UnpackedFloat totalExponent)
open Float.Model.UnpackedFloat

section Mantissas

variable {em : ExtendedMantissa} {y : ℚ} {n : ℕ}

def halves (em : ExtendedMantissa) : ℚ := em.mantissa + em.roundBit.toNat / 2

/-- The number that a mantissa and the two bits behind it tell of: the first bit is a half, the
second one says that there is more. -/
structure Stands (em : ExtendedMantissa) (y : ℚ) : Prop where
  low : halves em ≤ y
  high : y < halves em + 1 / 2
  exact : em.stickyBit = false ↔ y = halves em

theorem stands_exact (n : ℕ) : Stands (.ofMantissaAndAccuracy n .exact) n := by
  have whole : halves (.ofMantissaAndAccuracy n .exact) = n := by
    simp [halves, ExtendedMantissa.ofMantissaAndAccuracy]
  exact ⟨whole.le, by rw [whole]; linarith, iff_of_true rfl whole.symm⟩

/-- The bit that is shifted out of the mantissa is a half of the new one. -/
theorem halves_shiftRightOne (em : ExtendedMantissa) :
    halves em.shiftRightOne = em.mantissa / 2 := by
  have split : (em.mantissa : ℚ) = 2 * (em.mantissa / 2 : ℕ) + (em.mantissa % 2 : ℕ) := by
    exact_mod_cast (Nat.div_add_mod _ 2).symm
  have bit : (em.mantissa % 2 != 0).toNat = em.mantissa % 2 := by
    rcases Nat.mod_two_eq_zero_or_one em.mantissa with h | h <;> rw [h] <;> rfl
  simp only [halves, ExtendedMantissa.shiftRightOne, bit]
  linarith

theorem Stands.shiftRightOne (h : Stands em y) : Stands em.shiftRightOne (y / 2) := by
  obtain ⟨low, high, exact⟩ := h
  have sticky : em.shiftRightOne.stickyBit = (em.roundBit || em.stickyBit) := rfl
  rw [halves] at low high exact
  cases hround : em.roundBit with
  | false =>
    rw [hround, Bool.toNat_false, Nat.cast_zero, zero_div, add_zero] at low high exact
    constructor
    · rw [halves_shiftRightOne]
      linarith
    · rw [halves_shiftRightOne]
      linarith
    · rw [sticky, hround, Bool.false_or, exact, halves_shiftRightOne]
      constructor <;> intro same <;> linarith
  | true =>
    rw [hround, Bool.toNat_true, Nat.cast_one] at low high exact
    constructor
    · rw [halves_shiftRightOne]
      linarith
    · rw [halves_shiftRightOne]
      linarith
    · rw [sticky, hround, Bool.true_or, halves_shiftRightOne]
      exact iff_of_false nofun fun same => by linarith

theorem Stands.shiftRight (h : Stands em y) (n : ℕ) : Stands (em >>> n) (y / 2 ^ n) := by
  induction n with
  | zero => rwa [pow_zero, div_one]
  | succ n ih =>
    rw [pow_succ, ← div_div]
    exact ih.shiftRightOne

/-- Zeros behind a mantissa, and a shift to the right by as many bits or more. -/
theorem stands_shifted (m : ℕ) {zeros shift : ℕ} {e : ℤ} (h : (zeros : ℤ) - shift = e) :
    Stands (ExtendedMantissa.ofMantissaAndAccuracy (m <<< zeros) .exact >>> shift) (m * 2 ^ e) := by
  have stands := (stands_exact (m <<< zeros)).shiftRight shift
  have shifted : ((m <<< zeros : ℕ) : ℚ) / 2 ^ shift = m * 2 ^ e := by
    rw [Nat.shiftLeft_eq]
    push_cast
    rw [mul_div_assoc, ← zpow_natCast, ← zpow_natCast, ← zpow_sub₀ two_ne_zero, h]
  rwa [shifted] at stands

/-- The mantissa is the number without its fraction. -/
theorem Stands.mantissa_le (h : Stands em y) : em.mantissa ≤ y ∧ y < em.mantissa + 1 := by
  obtain ⟨low, high, -⟩ := h
  rw [halves] at low high
  cases hround : em.roundBit <;> simp only [hround] at low high <;> norm_num at low high <;>
    constructor <;> linarith

/-- `n` is next to `y`, and even if another whole number is as near. -/
def RoundsTo (y : ℚ) (n : ℕ) : Prop := |y - n| ≤ 1 / 2 ∧ (|y - n| = 1 / 2 → n % 2 = 0)

theorem Stands.roundsTo (h : Stands em y) : RoundsTo y em.roundedMantissa := by
  obtain ⟨low, high, exact⟩ := h
  obtain ⟨n, round, sticky⟩ := em
  cases round <;> cases sticky <;>
    simp only [halves, ExtendedMantissa.roundedMantissa, ExtendedMantissa.accuracy,
      Accuracy.roundToNearestEven, Bool.toNat_false, Bool.toNat_true, Nat.cast_zero,
      Nat.cast_one, zero_div, add_zero, true_iff, Bool.true_eq_false, false_iff] at *
  · subst exact
    rw [RoundsTo, sub_self, abs_zero]
    norm_num
  · rw [RoundsTo, abs_of_nonneg (by linarith)]
    exact ⟨by linarith, fun tie => by linarith⟩
  · -- in the middle: up from an odd mantissa, down from an even one
    subst exact
    rcases Nat.mod_two_eq_zero_or_one n with bit | bit <;> rw [bit, RoundsTo]
    · refine ⟨?_, fun _ => bit⟩
      norm_num
    · refine ⟨?_, fun _ => by omega⟩
      push_cast
      rw [show (n : ℚ) + 1 / 2 - (n + 1) = -(1 / 2) by ring, abs_neg]
      norm_num
  · have above : (n : ℚ) + 1 / 2 < y := lt_of_le_of_ne low (Ne.symm exact)
    rw [RoundsTo, abs_of_neg (by push_cast; linarith)]
    push_cast
    exact ⟨by linarith, fun tie => by linarith⟩

/-- No whole number is nearer, and none is as near unless `n` is even. -/
theorem RoundsTo.le_abs (h : RoundsTo y n) (k : ℤ) :
    |y - n| ≤ |y - k| ∧ (|y - n| = |y - k| → k = n ∨ n % 2 = 0) := by
  by_cases same : k = n
  · subst same
    exact ⟨le_rfl, fun _ => .inl rfl⟩
  · have apart : (1 : ℚ) ≤ |(k : ℚ) - n| := by
      exact_mod_cast Int.one_le_abs (sub_ne_zero.2 same)
    have around : |(k : ℚ) - n| ≤ |y - n| + |y - k| := by
      rw [show (k : ℚ) - n = (y - n) - (y - k) by ring]
      exact abs_sub _ _
    exact ⟨by linarith [h.1], fun tie => .inr (h.2 (by linarith [h.1]))⟩

/-- No multiple of a power of two is nearer, if it has no more bits than `y` has before its
fraction. -/
theorem RoundsTo.nearest {bits : ℕ} (h : RoundsTo y n) (hy : 2 ^ bits ≤ y) {k : ℤ}
    (hk : |k| < 2 ^ (bits + 1)) (g : ℤ) :
    |y - n| ≤ |y - k * 2 ^ g| ∧ (|y - n| = |y - k * 2 ^ g| → k * 2 ^ g = (n : ℚ) ∨ n % 2 = 0) := by
  rcases le_or_gt 0 g with whole | fraction
  · obtain ⟨g, rfl⟩ := Int.eq_ofNat_of_zero_le whole
    have := h.le_abs (k * 2 ^ g)
    push_cast at this
    rw [zpow_natCast]
    exact_mod_cast this
  · -- it is below the power of two that is not above `y`
    have half : (2 : ℚ) ^ g ≤ 1 / 2 := by
      have := zpow_le_zpow_right₀ (one_le_two (α := ℚ)) (Int.le_sub_one_of_lt fraction)
      norm_num at this ⊢
      exact this
    have below : (k : ℚ) * 2 ^ g < 2 ^ bits := by
      have hk : |(k : ℚ)| < 2 ^ bits * 2 := by exact_mod_cast pow_succ (2 : ℤ) bits ▸ hk
      calc (k : ℚ) * 2 ^ g ≤ |(k : ℚ)| * 2 ^ g := by
            gcongr
            exact le_abs_self _
        _ ≤ |(k : ℚ)| * (1 / 2) := by gcongr
        _ < 2 ^ bits := by linarith
    have power := (h.le_abs (2 ^ bits)).1
    push_cast at power
    rw [abs_of_nonneg (by linarith : 0 ≤ y - 2 ^ bits)] at power
    rw [abs_of_pos (by linarith : 0 < y - k * 2 ^ g)]
    exact ⟨by linarith, fun tie => by linarith⟩

theorem RoundsTo.le (h : RoundsTo y n) {k : ℕ} (hy : y < k) : n ≤ k := by
  have := (abs_le.1 h.1).1
  have : (n : ℚ) < k + 1 := by linarith
  exact Nat.lt_succ_iff.1 (by exact_mod_cast this)

theorem RoundsTo.ge (h : RoundsTo y n) {k : ℕ} (hy : k ≤ y) : k ≤ n := by
  have := (abs_le.1 h.1).2
  have : (k : ℚ) < n + 1 := by linarith
  exact Nat.lt_succ_iff.1 (by exact_mod_cast this)

end Mantissas

section Numbers

variable {format : Format} {m : ℕ} {e : ℤ}

def lastPlace (format : Format) (m : ℕ) (e : ℤ) : ℤ := format.targetExponent (totalExponent m e)

theorem log2_shiftLeft (hm : 0 < m) (n : ℕ) : (m <<< n).log2 = m.log2 + n := by
  induction n with
  | zero => rfl
  | succ n ih =>
    have positive : 0 < m <<< n := by
      rw [Nat.shiftLeft_eq]
      positivity
    rw [Nat.shiftLeft_succ, Nat.log2_two_mul positive.ne', ih, Nat.add_assoc]

theorem shiftToTarget_eq (format : Format) (m : ℕ) (e : ℤ) :
    shiftToTargetExponent format m e .exact =
      (ExtendedMantissa.ofMantissaAndAccuracy m .exact >>> (lastPlace format m e - e).toNat,
        e + (lastPlace format m e - e).toNat) := rfl

/-- A rounded number, where rounding up may have left one bit too many. -/
def placed (format : Format) (sign : Sign) (n : ℕ) (e : ℤ) : UnpackedFloat :=
  if h : n = 0 then .zero sign
  else if n = 2 ^ format.mantissaBits then
    .finite sign (2 ^ format.mantissaBitsWithoutImplicit) (e + 1) (Nat.two_pow_pos _)
  else .finite sign n e (Nat.pos_of_ne_zero h)

section Placed

variable {sign : Sign} {n : ℕ} {e : ℤ}

theorem placed_carry : placed format sign (2 ^ format.mantissaBits) e =
    .finite sign (2 ^ format.mantissaBitsWithoutImplicit) (e + 1) (Nat.two_pow_pos _) := by
  rw [placed, dif_neg (Nat.two_pow_pos _).ne', if_pos rfl]

theorem placed_of_ne (positive : 0 < n) (carry : n ≠ 2 ^ format.mantissaBits) :
    placed format sign n e = .finite sign n e positive := by
  rw [placed, dif_neg positive.ne', if_neg carry]

theorem placed_cases {P : ℕ → UnpackedFloat → Prop} (zero : P 0 (.zero sign))
    (carry : P (2 ^ format.mantissaBits)
      (.finite sign (2 ^ format.mantissaBitsWithoutImplicit) (e + 1) (Nat.two_pow_pos _)))
    (fits : ∀ n (positive : 0 < n), P n (.finite sign n e positive)) (n : ℕ) :
    P n (placed format sign n e) := by
  by_cases positive : 0 < n
  · by_cases full : n = 2 ^ format.mantissaBits
    · subst full
      rw [placed_carry]
      exact carry
    · rw [placed_of_ne positive full]
      exact fits n positive
  · obtain rfl := Nat.eq_zero_of_not_pos positive
    exact zero

end Placed

theorem lastPlace_eq (format : Format) (m : ℕ) (e : ℤ) :
    lastPlace format m e = max (m.log2 + 1 + e - format.mantissaBits) format.minExponent := rfl

/-- The number has no more bits than fit before the last place. -/
theorem lt_pow_lastPlace (format : Format) (m : ℕ) (e : ℤ) :
    (m * 2 ^ (e - lastPlace format m e) : ℚ) < (2 ^ format.mantissaBits : ℕ) := by
  have bits : (m : ℚ) < 2 ^ ((m.log2 : ℤ) + 1) := by exact_mod_cast Nat.lt_log2_self
  calc (m * 2 ^ (e - lastPlace format m e) : ℚ)
      < 2 ^ ((m.log2 : ℤ) + 1) * 2 ^ (e - lastPlace format m e) := by gcongr
    _ = 2 ^ ((m.log2 : ℤ) + 1 + (e - lastPlace format m e)) := (zpow_add₀ two_ne_zero _ _).symm
    _ ≤ 2 ^ (format.mantissaBits : ℤ) := by
        refine zpow_le_zpow_right₀ one_le_two ?_
        rw [lastPlace_eq]
        omega
    _ = (2 ^ format.mantissaBits : ℕ) := by
        rw [zpow_natCast]
        push_cast
        rfl

/-- Unless the last place is the least one, the number fills the mantissa. -/
theorem pow_le_lastPlace (hm : 0 < m) (normal : format.minExponent < lastPlace format m e) :
    ((2 ^ format.mantissaBitsWithoutImplicit : ℕ) : ℚ) ≤ m * 2 ^ (e - lastPlace format m e) := by
  have bits : (2 : ℚ) ^ (m.log2 : ℤ) ≤ m := by exact_mod_cast Nat.log2_self_le hm.ne'
  have exponents : (format.mantissaBitsWithoutImplicit : ℤ) = m.log2 + (e - lastPlace format m e) := by
    rw [lastPlace_eq] at normal ⊢
    rw [mantissaBits_eq] at *
    omega
  calc ((2 ^ format.mantissaBitsWithoutImplicit : ℕ) : ℚ)
      = 2 ^ (format.mantissaBitsWithoutImplicit : ℤ) := by
        rw [zpow_natCast]
        push_cast
        rfl
    _ = 2 ^ (m.log2 : ℤ) * 2 ^ (e - lastPlace format m e) := by
        rw [exponents, zpow_add₀ two_ne_zero]
    _ ≤ m * 2 ^ (e - lastPlace format m e) := by gcongr

/-- A mantissa that fits stays as it is. -/
theorem shiftToTarget_of_fits {n : ℕ} (hn : n < 2 ^ format.mantissaBits)
    (he : format.minExponent ≤ e) :
    shiftToTargetExponent format n e .exact = (⟨n, false, false⟩, e) := by
  have length : n.log2 + 1 ≤ format.mantissaBits := by
    rcases Nat.eq_zero_or_pos n with rfl | positive
    · rw [Nat.log2_zero, mantissaBits_eq]
      omega
    · exact (Nat.log2_lt positive.ne').2 hn
  have none : (lastPlace format n e - e).toNat = 0 := by
    rw [lastPlace_eq]
    omega
  rw [shiftToTarget_eq, none, Nat.cast_zero, Int.add_zero]
  rfl

/-- One bit more than fits, with nothing behind it, is shifted out. -/
theorem shiftToTarget_of_carry (he : format.minExponent ≤ e) :
    shiftToTargetExponent format (2 ^ format.mantissaBits) e .exact =
      (⟨2 ^ format.mantissaBitsWithoutImplicit, false, false⟩, e + 1) := by
  have one : (lastPlace format (2 ^ format.mantissaBits) e - e).toNat = 1 := by
    rw [lastPlace_eq, Nat.log2_two_pow]
    omega
  have even : 2 ^ format.mantissaBits % 2 = 0 := by
    rw [mantissas_eq]
    omega
  have half : 2 ^ format.mantissaBits / 2 = 2 ^ format.mantissaBitsWithoutImplicit := by
    rw [mantissas_eq]
    omega
  rw [shiftToTarget_eq, one, Nat.cast_one]
  change (ExtendedMantissa.shiftRightOne ⟨2 ^ format.mantissaBits, false, false⟩, e + 1) = _
  rw [ExtendedMantissa.shiftRightOne, even, half]
  rfl

/-- What rounding does: the number is rounded at the last place. -/
theorem round_eq (format : Format) (sign : Sign) (hm : 0 < m) (e : ℤ) :
    ∃ n : ℕ, RoundsTo (m * 2 ^ (e - lastPlace format m e)) n ∧
      n ≤ 2 ^ format.mantissaBits ∧
      round format sign m e = placed format sign n (lastPlace format m e) := by
  set last := lastPlace format m e with hlast
  have least : format.minExponent ≤ last := by
    rw [hlast, lastPlace_eq]
    exact le_max_right _ _
  -- zeros behind the mantissa keep the place where it is rounded
  set zeros := (e - last).toNat with hzeros
  have same : lastPlace format (m <<< zeros) (e - zeros) = last := by
    rw [hlast, lastPlace_eq, lastPlace_eq, log2_shiftLeft hm]
    push_cast
    congr 1
    ring
  set shift := (last - (e - zeros)).toNat with hshift
  set em := ExtendedMantissa.ofMantissaAndAccuracy (m <<< zeros) .exact >>> shift with hem
  have stands : Stands em (m * 2 ^ (e - last)) := stands_shifted m (by omega)
  have fits : em.roundedMantissa ≤ 2 ^ format.mantissaBits :=
    stands.roundsTo.le (lt_pow_lastPlace format m e)
  refine ⟨em.roundedMantissa, stands.roundsTo, fits, ?_⟩
  have run : round format sign m e =
      roundWithAccuracy format sign (m <<< zeros) (e - zeros) .exact := rfl
  have place : e - zeros + shift = last := by omega
  rw [run, roundWithAccuracy, shiftToTarget_eq, same]
  dsimp only
  rw [← hshift, ← hem, place]
  generalize em.roundedMantissa = n at fits
  by_cases carry : n = 2 ^ format.mantissaBits
  · subst carry
    rw [shiftToTarget_of_carry least, placed_carry]
    dsimp only
    rw [dif_neg (by positivity)]
  · rw [shiftToTarget_of_fits (lt_of_le_of_ne fits carry) least]
    dsimp only
    by_cases zero : n = 0
    · subst zero
      exact dif_pos rfl
    · rw [dif_neg zero, placed_of_ne (Nat.pos_of_ne_zero zero) carry]

/-- Rounding up to a power of two changes the mantissa, but not the value. -/
theorem value_placed (format : Format) (sign : Sign) (n : ℕ) (e : ℤ) :
    value? (placed format sign n e) = some ((sign.apply n : ℚ) * 2 ^ e) := by
  apply placed_cases (P := fun n u => value? u = some ((sign.apply n : ℚ) * 2 ^ e))
  · rw [Nat.cast_zero, apply_zero, Int.cast_zero, zero_mul]
    rfl
  · rw [value_finite, mantissas_eq, zpow_add_one₀ two_ne_zero]
    cases sign <;> simp only [Sign.apply] <;> push_cast <;> ring_nf
  · intro n positive
    exact value_finite

def IsEven : UnpackedFloat → Prop
  | .finite _ mantissa _ _ => mantissa % 2 = 0
  | _ => True

theorem isEven_placed {n : ℕ} (h : n % 2 = 0) (sign : Sign) (e : ℤ) :
    IsEven (placed format sign n e) := by
  revert h
  apply placed_cases (P := fun n u => n % 2 = 0 → IsEven u)
  · intro _
    trivial
  · intro _
    change 2 ^ format.mantissaBitsWithoutImplicit % 2 = 0
    rw [← Nat.sub_add_cancel format.hm, pow_succ, Nat.mul_mod_left]
  · intro n positive h
    exact h

/-- The number of the format that is next to `x`; of two that are as near it is the even one. -/
def IsNearest (format : Format) (x : ℚ) (u : UnpackedFloat) : Prop :=
  IsOf format u ∧ ∃ v, value? u = some v ∧ ∀ other w, IsOf format other → value? other = some w →
    |x - v| ≤ |x - w| ∧ (|x - v| = |x - w| → w = v ∨ IsEven u)

theorem apply_apply (sign : Sign) (x : ℤ) : sign.apply (sign.apply x) = x := by
  cases sign
  · exact neg_neg x
  · rfl

/-- Distances in units of the last place. -/
theorem abs_sub_eq (sign : Sign) (m : ℕ) (k e g last : ℤ) :
    |(sign.apply m : ℚ) * 2 ^ e - k * 2 ^ g| =
      |m * 2 ^ (e - last) - (sign.apply k : ℚ) * 2 ^ (g - last)| * 2 ^ last := by
  have unit (x : ℤ) : (2 : ℚ) ^ x = 2 ^ (x - last) * 2 ^ last := by
    rw [← zpow_add₀ two_ne_zero, sub_add_cancel]
  rw [← abs_of_pos (zpow_pos two_pos last : (0 : ℚ) < 2 ^ last), ← abs_mul, unit e, unit g]
  cases sign
  · rw [← abs_neg]
    congr 1
    simp only [Sign.apply]
    push_cast
    ring
  · congr 1
    simp only [Sign.apply]
    push_cast
    ring

theorem fills_placed {n : ℕ} (full : 2 ^ format.mantissaBitsWithoutImplicit ≤ n)
    (fits : n ≤ 2 ^ format.mantissaBits) (sign : Sign) (e : ℤ) :
    ∃ e', e ≤ e' ∧ e' ≤ e + 1 ∧ Fills format sign e' (placed format sign n e) := by
  have positive : 0 < n := Nat.lt_of_lt_of_le (Nat.two_pow_pos _) full
  by_cases carry : n = 2 ^ format.mantissaBits
  · subst carry
    exact ⟨e + 1, by omega, le_rfl, _, _, placed_carry, Nat.log2_two_pow⟩
  · refine ⟨e, le_rfl, by omega, _, _, placed_of_ne positive carry, ?_⟩
    have width := mantissas_eq format
    exact (Nat.log2_eq_iff positive.ne').2 ⟨full, by rw [pow_succ]; omega⟩

/-- A number that is not too large for a format, nor so small that it loses bits of its mantissa,
fills the mantissa when it is rounded, and is packed without loss. -/
theorem unpack_round (sign : Sign) (hm : 0 < m)
    (normal : format.minExponent < lastPlace format m e)
    (small : lastPlace format m e + format.mantissaBits ≤ format.exponentBias) :
    ∃ (n : ℕ) (e' : ℤ), RoundsTo (m * 2 ^ (e - lastPlace format m e)) n ∧
      unpack format (pack format (round format sign m e)) =
        placed format sign n (lastPlace format m e) ∧
      lastPlace format m e ≤ e' ∧ e' ≤ lastPlace format m e + 1 ∧
      Fills format sign e' (unpack format (pack format (round format sign m e))) := by
  obtain ⟨n, rounds, fits, result⟩ := round_eq format sign hm e
  obtain ⟨e', low, high, fills⟩ := fills_placed (rounds.ge (pow_le_lastPlace hm normal)) fits sign
    (lastPlace format m e)
  have packed := fills.unpack_pack (by omega) (by rw [mantissaBits_eq] at small; omega)
  exact ⟨n, e', rounds, by rw [result, packed], low, high, by rwa [result, packed]⟩

/-- Such a number is rounded to the nearest one of the format. -/
theorem round_isNearest (sign : Sign) (hm : 0 < m)
    (normal : format.minExponent < lastPlace format m e)
    (small : lastPlace format m e + format.mantissaBits ≤ format.exponentBias) :
    IsNearest format (sign.apply m * 2 ^ e) (unpack format (pack format (round format sign m e))) := by
  obtain ⟨n, -, rounds, unpacked, -⟩ := unpack_round sign hm normal small
  have filled := pow_le_lastPlace hm normal
  push_cast at filled
  set last := lastPlace format m e
  rw [unpacked]
  refine ⟨⟨_, unpacked⟩, _, value_placed format sign n last, fun other w hother hw => ?_⟩
  obtain ⟨k, g, hk, rfl⟩ := hother.value_eq hw
  have unit : (0 : ℚ) < 2 ^ last := zpow_pos two_pos last
  have length : |sign.apply k| < 2 ^ (format.mantissaBitsWithoutImplicit + 1) := by
    rwa [abs_apply, Nat.add_comm]
  obtain ⟨nearest, tie⟩ := rounds.nearest filled length (g - last)
  rw [abs_sub_eq sign m _ e last last, abs_sub_eq sign m k e g last, apply_apply, sub_self, zpow_zero,
    mul_one, Int.cast_natCast]
  refine ⟨by gcongr, fun equal => ?_⟩
  rcases tie (mul_right_cancel₀ unit.ne' equal) with same | even
  · left
    have value : (sign.apply k : ℚ) * 2 ^ g = n * 2 ^ last := by
      rw [← same, mul_assoc, ← zpow_add₀ two_ne_zero, sub_add_cancel]
    cases sign <;> simp only [Sign.apply] at value ⊢ <;> push_cast at value ⊢ <;> linarith
  · exact .inr (isEven_placed even sign last)

end Numbers

end Frontend.Floating
