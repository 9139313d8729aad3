import Frontend.Proofs.Semantics.Operators

/-!
# Integer operators in signed words of 128 bits

A machine that folds constants has no integers without a bound. `wide1` and `wide2` take the
operators in two's complement of 128 bits, one operation after the other, and stop with a `Trap`
where a checked operation has no result. They never stop, and what they give is what `fold1` and
`fold2` give: every sum, difference and quotient of words of up to 64 bits fits, only the product of
two of them may not and is taken modulo `2 ^ 128`. With that, operators on integers are exact
arithmetic modulo two to the width of their type.
-/

namespace Frontend.Constant

inductive Trap where
  | overflow
  | zeroDivisor
  | shiftTooFar
  deriving DecidableEq, Repr

namespace Checked

variable (x y : BitVec 128)

def add : Except Trap (BitVec 128) :=
  if x.saddOverflow y then .error .overflow else .ok (x + y)

def sub : Except Trap (BitVec 128) :=
  if x.ssubOverflow y then .error .overflow else .ok (x - y)

def neg : Except Trap (BitVec 128) :=
  if x.negOverflow then .error .overflow else .ok (-x)

/-- The least word has no quotient by minus one, and no remainder either. -/
def div : Except Trap (BitVec 128) :=
  if y = 0 then .error .zeroDivisor
  else if x = .intMin 128 ∧ y = -1 then .error .overflow
  else .ok (x.sdiv y)

def rem : Except Trap (BitVec 128) :=
  if y = 0 then .error .zeroDivisor
  else if x = .intMin 128 ∧ y = -1 then .error .overflow
  else .ok (x.srem y)

def shiftLeft (n : BitVec 32) : Except Trap (BitVec 128) :=
  if 128 ≤ n.toNat then .error .shiftTooFar else .ok (x <<< n.toNat)

def shiftRight (n : BitVec 32) : Except Trap (BitVec 128) :=
  if 128 ≤ n.toNat then .error .shiftTooFar else .ok (x.sshiftRight n.toNat)

end Checked

/-- An integer constant in 128 bits. All but `uint64` go through their signed 64-bit word. -/
def wide? : Constant → Option (BitVec 128)
  | uint64 x => some (x.toBitVec.setWidth 128)
  | c => c.asInt64?.map (·.toBitVec.signExtend 128)

def narrow? (type : BaseType) (x : BitVec 128) : Option Constant :=
  ofInt64? type (.ofBitVec (x.setWidth 64))

def shiftable (bits : Nat) (y : BitVec 128) : Bool :=
  (0 : BitVec 128).sle y && y.slt (.ofNat 128 bits)

def wideIntegers (op : String) (type : BaseType) (bits : Nat) (x y : BitVec 128) :
    Except Trap (Option Constant) :=
  match op with
  | "+" => (Checked.add x y).map (narrow? type)
  | "-" => (Checked.sub x y).map (narrow? type)
  | "*" => .ok (narrow? type (x * y))
  | "/" => if y = 0 then .ok none else (Checked.div x y).map (narrow? type)
  | "%" => if y = 0 then .ok none else (Checked.rem x y).map (narrow? type)
  | "&" => .ok (narrow? type (x &&& y))
  | "|" => .ok (narrow? type (x ||| y))
  | "^" => .ok (narrow? type (x ^^^ y))
  | "<<" =>
    if shiftable bits y then (Checked.shiftLeft x (y.setWidth 32)).map (narrow? type) else .ok none
  | ">>" =>
    if shiftable bits y then (Checked.shiftRight x (y.setWidth 32)).map (narrow? type) else .ok none
  | _ => .ok (compareBy op (compare x.toInt y.toInt))

def wide1 (op : String) (a : Constant) : Except Trap (Option Constant) :=
  match op, a.wide? with
  | "+", some _ => .ok (some a)
  | "-", some x => (Checked.neg x).map (narrow? a.baseType)
  | "~", some x => .ok (narrow? a.baseType (~~~x))
  | _, _ => .ok none

def wide2 (op : String) (a b : Constant) : Except Trap (Option Constant) :=
  if a.baseType ≠ b.baseType then .ok none
  else match a.baseType.bits?, a.wide?, b.wide? with
    | some bits, some x, some y => wideIntegers op a.baseType bits x y
    | _, _, _ => .ok none

section Words

variable {type : BaseType} {bits : Nat} {x y : Int}

theorem bits_le (h : type.bits? = some bits) : bits ≤ 64 := by
  cases type <;> cases h <;> decide

theorem isInteger_of_bits (h : type.bits? = some bits) : type.isInteger = true := by
  cases type <;> cases h <;> rfl

theorem exists_wrapTo (h : type.bits? = some bits) (x : Int) :
    ∃ c, wrapTo? type x = some c ∧ IsWord type x c := by
  obtain ⟨c, hc⟩ := Option.isSome_iff_exists.1 ((isSome_wrapTo type x).trans (isInteger_of_bits h))
  exact ⟨c, hc, isWord_wrapTo hc⟩

theorem wrapTo_congr (h : type.bits? = some bits) (hxy : x % 2 ^ bits = y % 2 ^ bits) :
    wrapTo? type x = wrapTo? type y := by
  obtain ⟨c, hc, hx⟩ := exists_wrapTo h x
  obtain ⟨d, hd, hy⟩ := exists_wrapTo h y
  rw [hc, hd, (hx.congr h hxy).unique hy]

theorem toInt_ofInt_emod (width : Nat) (x : Int) :
    (BitVec.ofInt width x).toInt % 2 ^ width = x % 2 ^ width := by
  have := @Int.bmod_emod x (2 ^ width)
  rwa [← BitVec.toInt_ofInt, Int.natCast_pow] at this

/-- The way through a signed 64-bit word loses nothing that the type has. -/
theorem narrow_ofInt (h : type.bits? = some bits) (x : Int) :
    narrow? type (.ofInt 128 x) = wrapTo? type x := by
  have hle := bits_le h
  refine wrapTo_congr h ?_
  rw [setWidth_ofInt (by decide), ← Int64.toInt_toBitVec, Int64.toBitVec_ofBitVec,
    toInt_emod_setWidth hle, setWidth_ofInt hle, toInt_ofInt_emod]

theorem narrow_eq (h : type.bits? = some bits) (w : BitVec 128) :
    narrow? type w = wrapTo? type w.toInt := by
  rw [← narrow_ofInt h, BitVec.ofInt_toInt]

theorem narrow_bitwise {f : BitVec 65 → BitVec 65 → BitVec 65}
    {g : BitVec bits → BitVec bits → BitVec bits} {k : BitVec 128 → BitVec 128 → BitVec 128}
    (h : type.bits? = some bits)
    (hf : ∀ a b, (f a b).setWidth bits = g (a.setWidth bits) (b.setWidth bits))
    (hk : ∀ a b, (k a b).setWidth bits = g (a.setWidth bits) (b.setWidth bits)) (x y : Int) :
    narrow? type (k (.ofInt 128 x) (.ofInt 128 y)) = wrapTo? type (bitwise f x y) := by
  have hle := bits_le h
  rw [narrow_eq h]
  refine wrapTo_congr h ?_
  rw [toInt_emod_setWidth (by omega), hk, setWidth_ofInt (by omega), setWidth_ofInt (by omega),
    bitwise_emod (by omega) hf]

end Words

section Range

/-- What a word of at most 64 bits, signed or not, can be. -/
structure Small (x : Int) : Prop where
  low : -2 ^ 63 ≤ x
  high : x < 2 ^ 64

theorem small_of_integer {a : Constant} {x : Int} (h : a.integer? = some x) : Small x := by
  cases a <;> cases h
  case int8 v => exact ⟨by have := v.le_toInt; omega, by have := v.toInt_lt; omega⟩
  case uint8 v => exact ⟨by omega, by have := v.toNat_lt; omega⟩
  case int16 v => exact ⟨by have := v.le_toInt; omega, by have := v.toInt_lt; omega⟩
  case uint16 v => exact ⟨by omega, by have := v.toNat_lt; omega⟩
  case int v => exact ⟨by have := v.le_toInt; omega, by have := v.toInt_lt; omega⟩
  case uint v => exact ⟨by omega, by have := v.toNat_lt; omega⟩
  case int64 v => exact ⟨by have := v.le_toInt; omega, by have := v.toInt_lt; omega⟩
  case uint64 v => exact ⟨by omega, by have := v.toNat_lt; omega⟩

theorem signExtend_ofInt {x : Int} (hl : -2 ^ 63 ≤ x) (hh : x < 2 ^ 63) :
    (Int64.ofInt x).toBitVec.signExtend 128 = BitVec.ofInt 128 x := by
  rw [BitVec.signExtend, Int64.toInt_toBitVec, Int64.toInt_ofInt_of_le hl hh]

/-- Every integer constant is exact in 128 bits. -/
theorem wide_eq {a : Constant} {x : Int} (h : a.integer? = some x) :
    a.wide? = some (.ofInt 128 x) := by
  have hx := small_of_integer h
  cases a <;> cases h
  case uint64 v =>
    rw [wide?, BitVec.ofInt_natCast, ← UInt64.toNat_toBitVec, BitVec.ofNat_toNat]
  case int8 v => exact congrArg some (signExtend_ofInt hx.low (by have := v.toInt_lt; omega))
  case uint8 v => exact congrArg some (signExtend_ofInt hx.low (by have := v.toNat_lt; omega))
  case int16 v => exact congrArg some (signExtend_ofInt hx.low (by have := v.toInt_lt; omega))
  case uint16 v => exact congrArg some (signExtend_ofInt hx.low (by have := v.toNat_lt; omega))
  case int v => exact congrArg some (signExtend_ofInt hx.low (by have := v.toInt_lt; omega))
  case uint v => exact congrArg some (signExtend_ofInt hx.low (by have := v.toNat_lt; omega))
  case int64 v => exact congrArg some (signExtend_ofInt hx.low v.toInt_lt)

variable {x y : Int}

theorem Small.toInt (hx : Small x) : (BitVec.ofInt 128 x).toInt = x :=
  BitVec.toInt_ofInt_eq_self (by decide) (by have := hx.low; omega) (by have := hx.high; omega)

theorem Small.eq_zero (hx : Small x) : BitVec.ofInt 128 x = 0 ↔ x = 0 := by
  rw [← BitVec.toInt_inj, hx.toInt]
  rfl

theorem Small.ne_intMin (hx : Small x) : BitVec.ofInt 128 x ≠ .intMin 128 := by
  intro h
  have hm : x = (BitVec.intMin 128).toInt := by rw [← h, hx.toInt]
  rw [BitVec.toInt_intMin] at hm
  have := hx.low
  omega

theorem checked_add (hx : Small x) (hy : Small y) :
    Checked.add (.ofInt 128 x) (.ofInt 128 y) = .ok (.ofInt 128 (x + y)) := by
  have hfit : BitVec.saddOverflow (.ofInt 128 x) (.ofInt 128 y) = false := by
    have := hx.low
    have := hx.high
    have := hy.low
    have := hy.high
    rw [BitVec.saddOverflow, hx.toInt, hy.toInt, Bool.or_eq_false_iff]
    exact ⟨decide_eq_false (by omega), decide_eq_false (by omega)⟩
  rw [Checked.add, hfit, BitVec.ofInt_add]
  rfl

theorem checked_neg (hx : Small x) : Checked.neg (.ofInt 128 x) = .ok (.ofInt 128 (-x)) := by
  have hfit : BitVec.negOverflow (.ofInt 128 x) = false := by
    have := hx.low
    rw [BitVec.negOverflow, hx.toInt, beq_eq_false_iff_ne]
    omega
  rw [Checked.neg, hfit, BitVec.ofInt_neg]
  rfl

theorem checked_sub (hx : Small x) (hy : Small y) :
    Checked.sub (.ofInt 128 x) (.ofInt 128 y) = .ok (.ofInt 128 (x - y)) := by
  have hfit : BitVec.ssubOverflow (.ofInt 128 x) (.ofInt 128 y) = false := by
    have := hx.low
    have := hx.high
    have := hy.low
    have := hy.high
    rw [BitVec.ssubOverflow, hx.toInt, hy.toInt, Bool.or_eq_false_iff]
    exact ⟨decide_eq_false (by omega), decide_eq_false (by omega)⟩
  rw [Checked.sub, hfit, Int.sub_eq_add_neg, BitVec.ofInt_add, BitVec.ofInt_neg,
    ← BitVec.sub_eq_add_neg]
  rfl

theorem checked_div (hx : Small x) (hy : Small y) (h : y ≠ 0) :
    Checked.div (.ofInt 128 x) (.ofInt 128 y) = .ok (.ofInt 128 (x.tdiv y)) := by
  have hq := BitVec.toInt_sdiv_of_ne_or_ne _ (BitVec.ofInt 128 y) (.inl hx.ne_intMin)
  rw [hx.toInt, hy.toInt] at hq
  rw [Checked.div, if_neg (mt hy.eq_zero.1 h), if_neg (fun h => hx.ne_intMin h.1), ← hq,
    BitVec.ofInt_toInt]

theorem checked_rem (hx : Small x) (hy : Small y) (h : y ≠ 0) :
    Checked.rem (.ofInt 128 x) (.ofInt 128 y) = .ok (.ofInt 128 (x.tmod y)) := by
  have hr := BitVec.toInt_srem (BitVec.ofInt 128 x) (BitVec.ofInt 128 y)
  rw [hx.toInt, hy.toInt] at hr
  rw [Checked.rem, if_neg (mt hy.eq_zero.1 h), if_neg (fun h => hx.ne_intMin h.1), ← hr,
    BitVec.ofInt_toInt]

theorem shiftable_iff {bits : Nat} (hb : bits ≤ 64) (hy : Small y) :
    shiftable bits (.ofInt 128 y) = true ↔ 0 ≤ y ∧ y < bits := by
  have hn : (BitVec.ofNat 128 bits).toInt = bits := by
    rw [← BitVec.ofInt_natCast]
    exact Small.toInt ⟨by omega, by omega⟩
  rw [shiftable, Bool.and_eq_true, BitVec.sle_iff_toInt_le, BitVec.slt_iff_toInt_lt, hy.toInt, hn]
  rfl

/-- An amount in range is not cut off. -/
theorem amount_eq {bits : Nat} (hb : bits ≤ 64) (hy : 0 ≤ y ∧ y < bits) :
    ((BitVec.ofInt 128 y).setWidth 32).toNat = y.toNat := by
  rw [setWidth_ofInt (by decide), BitVec.toNat_ofInt, Int.emod_eq_of_lt hy.1 (by omega)]

theorem checked_shiftLeft {bits : Nat} (hb : bits ≤ 64) (hy : 0 ≤ y ∧ y < bits) (x : Int) :
    Checked.shiftLeft (.ofInt 128 x) ((BitVec.ofInt 128 y).setWidth 32) =
      .ok (.ofInt 128 (x <<< y.toNat)) := by
  have hpow (n : Nat) : BitVec.twoPow 128 n = BitVec.ofInt 128 (2 ^ n) := by
    refine BitVec.eq_of_toNat_eq ?_
    rw [BitVec.toNat_twoPow, ← Int.cast_ofNat_Int, ← Int.natCast_pow, BitVec.ofInt_natCast,
      BitVec.toNat_ofNat]
  rw [Checked.shiftLeft, amount_eq hb hy, if_neg (by omega), Int.shiftLeft_eq, BitVec.ofInt_mul,
    BitVec.shiftLeft_eq_mul_twoPow, hpow]

theorem checked_shiftRight {bits : Nat} (hb : bits ≤ 64) (hx : Small x) (hy : 0 ≤ y ∧ y < bits) :
    Checked.shiftRight (.ofInt 128 x) ((BitVec.ofInt 128 y).setWidth 32) =
      .ok (.ofInt 128 (x >>> y.toNat)) := by
  have hs := @BitVec.toInt_sshiftRight 128 (.ofInt 128 x) y.toNat
  rw [hx.toInt] at hs
  rw [Checked.shiftRight, amount_eq hb hy, if_neg (by omega), ← hs, BitVec.ofInt_toInt]

end Range

section Routes

variable {op : String} {a b : Constant} {type : BaseType} {bits : Nat} {x y : Int}

theorem wideIntegers_eq (h : type.bits? = some bits) (hx : Small x) (hy : Small y) :
    wideIntegers op type bits (.ofInt 128 x) (.ofInt 128 y) =
      .ok (foldIntegers op type bits x y) := by
  have hb := bits_le h
  have hn := narrow_ofInt h
  unfold foldIntegers
  split
  case h_1 => rw [wideIntegers, checked_add hx hy, Except.map, hn]
  case h_2 => rw [wideIntegers, checked_sub hx hy, Except.map, hn]
  case h_3 => rw [wideIntegers, ← BitVec.ofInt_mul, hn]
  case h_4 =>
    rw [wideIntegers]
    by_cases h0 : y = 0
    · rw [if_pos (hy.eq_zero.2 h0), if_pos h0]
    · rw [if_neg (mt hy.eq_zero.1 h0), if_neg h0, checked_div hx hy h0, Except.map, hn]
  case h_5 =>
    rw [wideIntegers]
    by_cases h0 : y = 0
    · rw [if_pos (hy.eq_zero.2 h0), if_pos h0]
    · rw [if_neg (mt hy.eq_zero.1 h0), if_neg h0, checked_rem hx hy h0, Except.map, hn]
  case h_6 =>
    have hw (n : Nat) (v w : BitVec n) := @BitVec.setWidth_and n bits v w
    rw [wideIntegers, narrow_bitwise h (hw 65) (hw 128)]
  case h_7 =>
    have hw (n : Nat) (v w : BitVec n) := @BitVec.setWidth_or n bits v w
    rw [wideIntegers, narrow_bitwise h (hw 65) (hw 128)]
  case h_8 =>
    have hw (n : Nat) (v w : BitVec n) := @BitVec.setWidth_xor n bits v w
    rw [wideIntegers, narrow_bitwise h (hw 65) (hw 128)]
  case h_9 =>
    rw [wideIntegers]
    by_cases hr : 0 ≤ y ∧ y < bits
    · rw [if_pos ((shiftable_iff hb hy).2 hr), if_pos hr, checked_shiftLeft hb hr, Except.map, hn]
    · rw [if_neg (mt (shiftable_iff hb hy).1 hr), if_neg hr]
  case h_10 =>
    rw [wideIntegers]
    by_cases hr : 0 ≤ y ∧ y < bits
    · rw [if_pos ((shiftable_iff hb hy).2 hr), if_pos hr, checked_shiftRight hb hx hr, Except.map,
        hn]
    · rw [if_neg (mt (shiftable_iff hb hy).1 hr), if_neg hr]
  case h_11 => rw [wideIntegers, hx.toInt, hy.toInt] <;> assumption

theorem bits_of_integer (h : a.integer? = some x) : ∃ bits, a.baseType.bits? = some bits := by
  cases a <;> cases h <;> exact ⟨_, rfl⟩

theorem fold2_integers (ht : a.baseType = b.baseType) (hb : a.baseType.bits? = some bits)
    (hx : a.integer? = some x) (hy : b.integer? = some y) :
    fold2 op a b = foldIntegers op a.baseType bits x y := by
  rw [fold2.eq_def, if_neg (not_not_intro ht)]
  split
  · cases hx
  · cases hx
  · cases hx
  · rw [hx, hy, hb]

/-- Two integer constants fold in wide words to what they fold to exactly. -/
theorem wide2_eq (hx : a.integer? = some x) (hy : b.integer? = some y) :
    wide2 op a b = .ok (fold2 op a b) := by
  obtain ⟨bits, hb⟩ := bits_of_integer hx
  by_cases ht : a.baseType = b.baseType
  · rw [wide2, if_neg (not_not_intro ht), fold2_integers ht hb hx hy, wide_eq hx, wide_eq hy, hb]
    exact wideIntegers_eq hb (small_of_integer hx) (small_of_integer hy)
  · rw [wide2, if_pos ht, fold2.eq_def, if_pos ht]

theorem ofInt_not (x : Int) : ~~~(BitVec.ofInt 128 x) = BitVec.ofInt 128 (-x - 1) := by
  rw [BitVec.not_eq_neg_add, BitVec.sub_eq_add_neg, Int.sub_eq_add_neg, BitVec.ofInt_add,
    BitVec.ofInt_neg]
  rfl

theorem isNumeric_of_integer (hx : a.integer? = some x) : a.baseType.isNumeric = true := by
  cases a <;> cases hx <;> rfl

theorem fold1_integer (hx : a.integer? = some x) :
    fold1 op a =
      if op = "+" then some a else (intOperator1 op x).bind fun z => wrapTo? a.baseType z := by
  unfold fold1
  split
  case h_1 => cases hx
  case h_2 => cases hx
  case h_3 => cases hx
  case h_4 => rw [if_pos (isNumeric_of_integer hx), if_pos rfl]
  case h_5 => rw [hx]; rfl
  case h_6 => rw [hx]; rfl
  case h_7 hadd hneg hnot _ _ _ =>
    rw [if_neg hadd, intOperator1]
    · rfl
    all_goals assumption

theorem wide1_eq (hx : a.integer? = some x) : wide1 op a = .ok (fold1 op a) := by
  obtain ⟨bits, hb⟩ := bits_of_integer hx
  have hn := narrow_ofInt hb
  rw [fold1_integer hx]
  unfold wide1
  rw [wide_eq hx]
  split
  case h_1 => rw [if_pos rfl]
  case h_2 h =>
    cases h
    rw [checked_neg (small_of_integer hx), Except.map, hn]
    rfl
  case h_3 h =>
    cases h
    rw [ofInt_not, hn]
    rfl
  case h_4 hadd hneg hnot =>
    rw [if_neg fun h => hadd _ h rfl, intOperator1]
    · rfl
    · exact fun h => hadd _ h rfl
    · exact fun h => hneg _ h rfl
    · exact fun h => hnot _ h rfl

/-- What has a value on integers folds. -/
theorem exists_foldIntegers (hb : type.bits? = some bits)
    (h : (∃ z, intOperator2 bits op x y = some z) ∨ ∃ t, intComparison op x y = some t) :
    ∃ c, foldIntegers op type bits x y = some c := by
  have hw (z : Int) : ∃ c, wrapTo? type z = some c := by
    obtain ⟨c, hc, -⟩ := exists_wrapTo hb z
    exact ⟨c, hc⟩
  rcases h with ⟨z, h⟩ | ⟨t, h⟩
  · unfold intOperator2 at h
    split at h
    case h_4 | h_5 =>
      split at h
      · cases h
      · rename_i h0
        rw [foldIntegers, if_neg h0]
        exact hw _
    case h_9 | h_10 =>
      split at h
      · rename_i hr
        rw [foldIntegers, if_pos hr]
        exact hw _
      · cases h
    case h_11 => cases h
    all_goals exact hw _
  · unfold intComparison at h
    split at h
    case h_7 => cases h
    all_goals exact ⟨_, rfl⟩

theorem foldIntegers_of_operator {z : Int} (hb : type.bits? = some bits)
    (h : intOperator2 bits op x y = some z) :
    ∃ c, foldIntegers op type bits x y = some c ∧ IsWord type z c := by
  obtain ⟨c, hc⟩ := exists_foldIntegers hb (.inl ⟨z, h⟩)
  rcases foldIntegers_eq_some hb hc with ⟨z', hz', hw⟩ | ⟨t, ht, -⟩
  · obtain rfl : z = z' := Option.some.inj (h.symm.trans hz')
    exact ⟨c, hc, hw⟩
  · rw [intComparison_of_operator h] at ht
    cases ht

theorem foldIntegers_of_comparison {t : Bool} (hb : type.bits? = some bits)
    (h : intComparison op x y = some t) : foldIntegers op type bits x y = some (.bool t) := by
  obtain ⟨c, hc⟩ := exists_foldIntegers hb (.inr ⟨t, h⟩)
  rcases foldIntegers_eq_some hb hc with ⟨z, hz, -⟩ | ⟨t', ht', rfl⟩
  · rw [intComparison_of_operator hz] at h
    cases h
  · obtain rfl : t = t' := Option.some.inj (h.symm.trans ht')
    exact hc

theorem foldIntegers_eq_none (hb : type.bits? = some bits)
    (h : intOperator2 bits op x y = none) (h' : intComparison op x y = none) :
    foldIntegers op type bits x y = none := by
  rw [Option.eq_none_iff_forall_ne_some]
  intro c hc
  rcases foldIntegers_eq_some hb hc with ⟨z, hz, -⟩ | ⟨t, ht, -⟩
  · rw [h] at hz
    cases hz
  · rw [h'] at ht
    cases ht

/-- The bits of a signed constant read back as its value. -/
theorem toInt_of_signed (hb : a.baseType.bits? = some bits) (hs : a.baseType.isSigned = true)
    (hx : a.integer? = some x) : (BitVec.ofInt bits x).toInt = x := by
  cases a <;> cases hx <;> cases hb <;> cases hs
  case int8 v => rw [← v.toInt_toBitVec, BitVec.ofInt_toInt]
  case int16 v => rw [← v.toInt_toBitVec, BitVec.ofInt_toInt]
  case int v => rw [← v.toInt_toBitVec, BitVec.ofInt_toInt]
  case int64 v => rw [← v.toInt_toBitVec, BitVec.ofInt_toInt]

theorem toNat_of_unsigned (hb : a.baseType.bits? = some bits) (hs : a.baseType.isSigned = false)
    (hx : a.integer? = some x) : ((BitVec.ofInt bits x).toNat : Int) = x := by
  cases a <;> cases hx <;> cases hb <;> cases hs
  case uint8 v => rw [BitVec.ofInt_natCast, BitVec.toNat_ofNat, Nat.mod_eq_of_lt v.toNat_lt]
  case uint16 v => rw [BitVec.ofInt_natCast, BitVec.toNat_ofNat, Nat.mod_eq_of_lt v.toNat_lt]
  case uint v => rw [BitVec.ofInt_natCast, BitVec.toNat_ofNat, Nat.mod_eq_of_lt v.toNat_lt]
  case uint64 v => rw [BitVec.ofInt_natCast, BitVec.toNat_ofNat, Nat.mod_eq_of_lt v.toNat_lt]

/-- A right shift of the bits of a constant: arithmetic if its type is signed, else logical. -/
def shiftedRight (type : BaseType) (w : BitVec bits) (n : Nat) : Int :=
  if type.isSigned then (w.sshiftRight n).toInt else (w >>> n).toNat

theorem shiftedRight_eq (hb : a.baseType.bits? = some bits) (hx : a.integer? = some x) (n : Nat) :
    shiftedRight a.baseType (BitVec.ofInt bits x) n = x / 2 ^ n := by
  cases hs : a.baseType.isSigned with
  | true =>
    rw [shiftedRight, if_pos hs, BitVec.toInt_sshiftRight, toInt_of_signed hb hs hx,
      Int.shiftRight_eq_div_pow]
    norm_cast
  | false =>
    have hv := toNat_of_unsigned hb hs hx
    rw [shiftedRight, if_neg (by rw [hs]; decide), BitVec.toNat_ushiftRight,
      Nat.shiftRight_eq_div_pow, Int.natCast_ediv, hv]
    norm_cast

theorem fold2_eq_none_iff (ht : a.baseType = b.baseType) (hb : a.baseType.bits? = some bits)
    (hx : a.integer? = some x) (hy : b.integer? = some y) :
    fold2 op a b = none ↔ intOperator2 bits op x y = none ∧ intComparison op x y = none := by
  rw [fold2_integers ht hb hx hy]
  constructor
  · intro h
    constructor
    · rw [Option.eq_none_iff_forall_ne_some]
      intro z hz
      obtain ⟨c, hc, -⟩ := foldIntegers_of_operator hb hz
      rw [h] at hc
      cases hc
    · rw [Option.eq_none_iff_forall_ne_some]
      intro t ht
      rw [foldIntegers_of_comparison hb ht] at h
      cases h
  · exact fun h => foldIntegers_eq_none hb h.1 h.2

/-- The quotients that are left to the program. -/
theorem quotient_eq_none_iff (ho : op = "/" ∨ op = "%") :
    intOperator2 bits op x y = none ∧ intComparison op x y = none ↔ y = 0 := by
  rcases ho with rfl | rfl <;> simp [intOperator2, intComparison]

/-- The shifts that are left to the program. -/
theorem shift_eq_none_iff (ho : op = "<<" ∨ op = ">>") :
    intOperator2 bits op x y = none ∧ intComparison op x y = none ↔ ¬(0 ≤ y ∧ y < bits) := by
  rcases ho with rfl | rfl <;> simp [intOperator2, intComparison]

theorem fold1_exact (hb : a.baseType.bits? = some bits) (hx : a.integer? = some x) :
    (∀ z, intOperator1 op x = some z → ∃ c, fold1 op a = some c ∧ IsWord a.baseType z c) ∧
      (intOperator1 op x = none → fold1 op a = none) := by
  rw [fold1_integer hx]
  constructor
  · intro z hz
    split
    · rename_i hop
      subst hop
      cases hz
      exact ⟨a, rfl, isWord_self hx⟩
    · rw [hz]
      exact exists_wrapTo hb z
  · intro h
    rw [h, if_neg]
    · rfl
    · rintro rfl
      cases h

/-- Integer constants fold by exact arithmetic modulo two to the width of their type, and no step of
the way in signed words of 128 bits overflows or traps. -/
theorem integers_fold_exactly (op : String) (hb : a.baseType.bits? = some bits)
    (hx : a.integer? = some x) (hy : b.integer? = some y) :
    (a.baseType = b.baseType →
      (∀ z, intOperator2 bits op x y = some z →
        ∃ c, fold2 op a b = some c ∧ IsWord a.baseType z c) ∧
      (∀ t, intComparison op x y = some t → fold2 op a b = some (.bool t)) ∧
      (fold2 op a b = none ↔ intOperator2 bits op x y = none ∧ intComparison op x y = none) ∧
      (op = "/" ∨ op = "%" → (fold2 op a b = none ↔ y = 0)) ∧
      (op = "<<" ∨ op = ">>" → (fold2 op a b = none ↔ ¬(0 ≤ y ∧ y < bits))) ∧
      (0 ≤ y → y < bits → ∃ c, fold2 ">>" a b = some c ∧
        IsWord a.baseType (shiftedRight a.baseType (BitVec.ofInt bits x) y.toNat) c)) ∧
    (a.baseType ≠ b.baseType → fold2 op a b = none) ∧
    (∀ z, intOperator1 op x = some z → ∃ c, fold1 op a = some c ∧ IsWord a.baseType z c) ∧
    (intOperator1 op x = none → fold1 op a = none) ∧
    wide1 op a = .ok (fold1 op a) ∧ wide2 op a b = .ok (fold2 op a b) := by
  refine ⟨fun ht => ⟨?_, ?_, ?_, ?_, ?_, ?_⟩, ?_, (fold1_exact hb hx).1, (fold1_exact hb hx).2,
    wide1_eq hx, wide2_eq hx hy⟩
  · intro z hz
    rw [fold2_integers ht hb hx hy]
    exact foldIntegers_of_operator hb hz
  · intro t h
    rw [fold2_integers ht hb hx hy]
    exact foldIntegers_of_comparison hb h
  · exact fold2_eq_none_iff ht hb hx hy
  · intro ho
    rw [fold2_eq_none_iff ht hb hx hy, quotient_eq_none_iff ho]
  · intro ho
    rw [fold2_eq_none_iff ht hb hx hy, shift_eq_none_iff ho]
  · intro h0 h1
    rw [fold2_integers ht hb hx hy, shiftedRight_eq hb hx]
    exact foldIntegers_of_operator hb (if_pos ⟨h0, h1⟩)
  · intro ht
    rw [fold2.eq_def, if_pos ht]

/-- The square of the greatest word of 64 bits, which no signed word of 128 bits holds. -/
theorem greatest_square_folds :
    intOperator2 64 "*" (2 ^ 64 - 1) (2 ^ 64 - 1) = some ((2 ^ 64 - 1) * (2 ^ 64 - 1)) ∧
      wide2 "*" (.uint64 (-1)) (.uint64 (-1)) = .ok (fold2 "*" (.uint64 (-1)) (.uint64 (-1))) ∧
      ∃ c, fold2 "*" (.uint64 (-1)) (.uint64 (-1)) = some c ∧
        IsWord .uint64 ((2 ^ 64 - 1) * (2 ^ 64 - 1)) c := by
  have h := @integers_fold_exactly (.uint64 (-1)) (.uint64 (-1)) 64 (2 ^ 64 - 1) (2 ^ 64 - 1) "*"
    rfl (by decide) (by decide)
  exact ⟨rfl, h.2.2.2.2.2, (h.1 rfl).1 _ rfl⟩

end Routes

end Frontend.Constant
