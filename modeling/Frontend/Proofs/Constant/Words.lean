import Frontend.Constant.Fold
import Mathlib.Algebra.Group.Int.Defs

/-!
# Words of an integer type

`IsWord type x c` says that `c` is the constant of an integer type that is congruent to `x` modulo
two to the width of the type. There is one for every integer, and `wrapTo?` makes it.
-/

namespace Frontend.Constant

/-- The constant of the integer type with the residue of `x`. -/
def IsWord (type : BaseType) (x : Int) (c : Constant) : Prop :=
  ∃ bits y, type.bits? = some bits ∧ c.baseType = type ∧ c.integer? = some y ∧
    y % 2 ^ bits = x % 2 ^ bits

section Signed

theorem int8_emod (x : Int) : (Int8.ofInt x).toInt % 2 ^ 8 = x % 2 ^ 8 := by
  rw [Int8.toInt_ofInt]
  exact Int.bmod_emod

theorem int16_emod (x : Int) : (Int16.ofInt x).toInt % 2 ^ 16 = x % 2 ^ 16 := by
  rw [Int16.toInt_ofInt]
  exact Int.bmod_emod

theorem int32_emod (x : Int) : (Int32.ofInt x).toInt % 2 ^ 32 = x % 2 ^ 32 := by
  rw [Int32.toInt_ofInt]
  exact Int.bmod_emod

theorem int64_emod (x : Int) : (Int64.ofInt x).toInt % 2 ^ 64 = x % 2 ^ 64 := by
  rw [Int64.toInt_ofInt]
  exact Int.bmod_emod

end Signed

section Unsigned

theorem uint8_emod (x : Int) : ((UInt8.ofInt x).toNat : Int) % 2 ^ 8 = x % 2 ^ 8 := by
  simp only [UInt8.ofInt, UInt8.toNat_ofNat']
  omega

theorem uint16_emod (x : Int) : ((UInt16.ofInt x).toNat : Int) % 2 ^ 16 = x % 2 ^ 16 := by
  simp only [UInt16.ofInt, UInt16.toNat_ofNat']
  omega

theorem uint32_emod (x : Int) : ((UInt32.ofInt x).toNat : Int) % 2 ^ 32 = x % 2 ^ 32 := by
  simp only [UInt32.ofInt, UInt32.toNat_ofNat']
  omega

theorem uint64_emod (x : Int) : ((UInt64.ofInt x).toNat : Int) % 2 ^ 64 = x % 2 ^ 64 := by
  simp only [UInt64.ofInt, UInt64.toNat_ofNat']
  omega

end Unsigned

theorem isWord_wrapTo {type : BaseType} {x : Int} {c : Constant} (h : wrapTo? type x = some c) :
    IsWord type x c := by
  cases type <;> simp only [wrapTo?, reduceCtorEq, Option.some.injEq] at h <;> subst h
  case int8 => exact ⟨8, _, rfl, rfl, rfl, int8_emod x⟩
  case uint8 => exact ⟨8, _, rfl, rfl, rfl, uint8_emod x⟩
  case int16 => exact ⟨16, _, rfl, rfl, rfl, int16_emod x⟩
  case uint16 => exact ⟨16, _, rfl, rfl, rfl, uint16_emod x⟩
  case int => exact ⟨32, _, rfl, rfl, rfl, int32_emod x⟩
  case uint => exact ⟨32, _, rfl, rfl, rfl, uint32_emod x⟩
  case int64 => exact ⟨64, _, rfl, rfl, rfl, int64_emod x⟩
  case uint64 => exact ⟨64, _, rfl, rfl, rfl, uint64_emod x⟩

theorem IsWord.unique {type : BaseType} {x : Int} {c d : Constant} (hc : IsWord type x c)
    (hd : IsWord type x d) : c = d := by
  obtain ⟨bits, y, hbits, hct, hy, hym⟩ := hc
  obtain ⟨bits', z, hbits', hdt, hz, hzm⟩ := hd
  obtain rfl : bits = bits' := Option.some.inj (hbits.symm.trans hbits')
  have hm := hym.trans hzm.symm
  subst hct
  cases c <;> cases hy <;> cases hbits <;> cases d <;> cases hdt <;> cases hz
  case int8 a b =>
    have := a.le_toInt
    have := a.toInt_lt
    have := b.le_toInt
    have := b.toInt_lt
    rw [Int8.toInt_inj.1 (by omega : a.toInt = b.toInt)]
  case uint8 a b =>
    have := a.toNat_lt
    have := b.toNat_lt
    rw [UInt8.toNat_inj.1 (by omega : a.toNat = b.toNat)]
  case int16 a b =>
    have := a.le_toInt
    have := a.toInt_lt
    have := b.le_toInt
    have := b.toInt_lt
    rw [Int16.toInt_inj.1 (by omega : a.toInt = b.toInt)]
  case uint16 a b =>
    have := a.toNat_lt
    have := b.toNat_lt
    rw [UInt16.toNat_inj.1 (by omega : a.toNat = b.toNat)]
  case int a b =>
    have := a.le_toInt
    have := a.toInt_lt
    have := b.le_toInt
    have := b.toInt_lt
    rw [Int32.toInt_inj.1 (by omega : a.toInt = b.toInt)]
  case uint a b =>
    have := a.toNat_lt
    have := b.toNat_lt
    rw [UInt32.toNat_inj.1 (by omega : a.toNat = b.toNat)]
  case int64 a b =>
    have := a.le_toInt
    have := a.toInt_lt
    have := b.le_toInt
    have := b.toInt_lt
    rw [Int64.toInt_inj.1 (by omega : a.toInt = b.toInt)]
  case uint64 a b =>
    have := a.toNat_lt
    have := b.toNat_lt
    rw [UInt64.toNat_inj.1 (by omega : a.toNat = b.toNat)]

theorem IsWord.congr {type : BaseType} {bits : Nat} {x y : Int} {c : Constant}
    (hbits : type.bits? = some bits) (hxy : x % 2 ^ bits = y % 2 ^ bits) (h : IsWord type x c) :
    IsWord type y c := by
  obtain ⟨bits', z, hbits', ht, hz, hm⟩ := h
  obtain rfl : bits = bits' := Option.some.inj (hbits.symm.trans hbits')
  exact ⟨bits, z, hbits, ht, hz, hm.trans hxy⟩

section Bitwise

variable {bits width : Nat} (hb : bits ≤ width)

include hb in
private theorem pow_dvd : (2 : Int) ^ bits ∣ 2 ^ width := ⟨2 ^ (width - bits), by
  rw [← Int.pow_add, Nat.add_sub_cancel' hb]⟩

include hb in
theorem setWidth_ofInt (x : Int) :
    (BitVec.ofInt width x).setWidth bits = BitVec.ofInt bits x := by
  have hpos (n : Nat) : (0 : Int) < 2 ^ n := Int.pow_pos (by decide)
  refine BitVec.eq_of_toNat_eq (Int.ofNat_inj.1 ?_)
  rw [BitVec.toNat_setWidth, BitVec.toNat_ofInt, BitVec.toNat_ofInt, Int.natCast_emod]
  simp only [Int.natCast_pow, Int.cast_ofNat_Int]
  rw [Int.toNat_of_nonneg (Int.emod_nonneg _ (Int.ne_of_gt (hpos _))),
    Int.toNat_of_nonneg (Int.emod_nonneg _ (Int.ne_of_gt (hpos _))),
    Int.emod_emod_of_dvd _ (pow_dvd hb)]

include hb in
theorem emod_of_emod {x y : Int} (h : x % 2 ^ width = y % 2 ^ width) :
    x % 2 ^ bits = y % 2 ^ bits := by
  rw [← Int.emod_emod_of_dvd _ (pow_dvd hb), h, Int.emod_emod_of_dvd _ (pow_dvd hb)]

theorem toInt_emod (a : BitVec width) : a.toInt % 2 ^ width = a.toNat % 2 ^ width := by
  have := @Int.bmod_emod (a.toNat : Int) (2 ^ width)
  rw [← BitVec.toInt_eq_toNat_bmod, Int.natCast_pow] at this
  exact this

include hb in
theorem toInt_emod_setWidth (a : BitVec width) :
    a.toInt % 2 ^ bits = (a.setWidth bits).toInt % 2 ^ bits := by
  rw [← Int.emod_emod_of_dvd _ (pow_dvd hb), toInt_emod, Int.emod_emod_of_dvd _ (pow_dvd hb),
    toInt_emod, BitVec.toNat_setWidth, Int.natCast_emod, Int.natCast_pow]
  exact (Int.emod_emod_of_dvd _ (Int.dvd_refl _)).symm

end Bitwise

/-- The low bits of an integer stay in its word. -/
theorem ofInt_emod {bits : Nat} (hb : bits ≤ 64) (x : Int) :
    (Int64.ofInt x).toInt % 2 ^ bits = x % 2 ^ bits := emod_of_emod hb (int64_emod x)

theorem bitwise_emod {bits : Nat} (hb : bits ≤ 65) {f : BitVec 65 → BitVec 65 → BitVec 65}
    {g : BitVec bits → BitVec bits → BitVec bits}
    (hfg : ∀ a b, (f a b).setWidth bits = g (a.setWidth bits) (b.setWidth bits)) (x y : Int) :
    bitwise f x y % 2 ^ bits = (g (.ofInt bits x) (.ofInt bits y)).toInt % 2 ^ bits := by
  rw [bitwise, toInt_emod_setWidth hb, hfg, setWidth_ofInt hb, setWidth_ofInt hb]

end Frontend.Constant
