import Frontend.Proofs.Constant.Words

/-!
# What operators mean

On truth values operators follow their tables. On integers of one type they are computed exactly;
an integer result becomes the word of the type with its residue. Everything else is up to the
machine: quotients by zero, shifts out of range, operands of different types or of other kinds.
What folding computes is what the operators mean.
-/

namespace Frontend

namespace Constant

def IsSimple (c : Constant) : Prop := c.baseType = .bool ∨ c.baseType.isInteger = true

def boolOperator1 (op : String) (x : Bool) : Option Bool := if op = "!" then some !x else none

def boolOperator2 (op : String) (x y : Bool) : Option Bool :=
  match op with
  | "==" => some (x == y)
  | "!=" | "^^" => some (x != y)
  | "&&" => some (x && y)
  | "||" => some (x || y)
  | _ => none

def intOperator1 (op : String) (x : Int) : Option Int :=
  match op with
  | "+" => some x
  | "-" => some (-x)
  | "~" => some (-x - 1)
  | _ => none

def intComparison (op : String) (x y : Int) : Option Bool :=
  match op with
  | "==" => some (x = y)
  | "!=" => some (x ≠ y)
  | "<" => some (x < y)
  | "<=" => some (x ≤ y)
  | ">" => some (y < x)
  | ">=" => some (y ≤ x)
  | _ => none

def intOperator2 (bits : Nat) (op : String) (x y : Int) : Option Int :=
  match op with
  | "+" => some (x + y)
  | "-" => some (x - y)
  | "*" => some (x * y)
  | "/" => if y = 0 then none else some (x.tdiv y)
  | "%" => if y = 0 then none else some (x.tmod y)
  | "&" => some (BitVec.ofInt bits x &&& BitVec.ofInt bits y).toInt
  | "|" => some (BitVec.ofInt bits x ||| BitVec.ofInt bits y).toInt
  | "^" => some (BitVec.ofInt bits x ^^^ BitVec.ofInt bits y).toInt
  | "<<" => if 0 ≤ y ∧ y < bits then some (x * 2 ^ y.toNat) else none
  | ">>" => if 0 ≤ y ∧ y < bits then some (x / 2 ^ y.toNat) else none
  | _ => none

inductive Denotes1 (op : String) : Constant → Constant → Prop
  | bool {x z} (h : boolOperator1 op x = some z) : Denotes1 op (.bool x) (.bool z)
  | word {a x z c} (hx : a.integer? = some x) (h : intOperator1 op x = some z)
    (hc : IsWord a.baseType z c) : Denotes1 op a c

inductive Denotes2 (op : String) : Constant → Constant → Constant → Prop
  | bool {x y z} (h : boolOperator2 op x y = some z) : Denotes2 op (.bool x) (.bool y) (.bool z)
  | word {a b bits x y z c} (ht : a.baseType = b.baseType) (hb : a.baseType.bits? = some bits)
    (hx : a.integer? = some x) (hy : b.integer? = some y) (h : intOperator2 bits op x y = some z)
    (hc : IsWord a.baseType z c) : Denotes2 op a b c
  | truth {a b x y z} (ht : a.baseType = b.baseType) (hx : a.integer? = some x)
    (hy : b.integer? = some y) (h : intComparison op x y = some z) : Denotes2 op a b (.bool z)

theorem Denotes1.unique {op : String} {a c d : Constant} (hc : Denotes1 op a c)
    (hd : Denotes1 op a d) : c = d := by
  cases hc with
  | bool h =>
    cases hd with
    | bool h' =>
      rw [h] at h'
      cases h'
      rfl
    | word hx => cases hx
  | word hx h hc =>
    cases hd with
    | bool => cases hx
    | word hx' h' hd =>
      rw [hx] at hx'
      cases hx'
      rw [h] at h'
      cases h'
      exact hc.unique hd

/-- No operator both computes and compares. -/
theorem intComparison_of_operator {bits : Nat} {op : String} {x y z : Int}
    (h : intOperator2 bits op x y = some z) : intComparison op x y = none := by
  unfold intOperator2 at h
  unfold intComparison
  split at h <;> first | rfl | cases h

theorem Denotes2.unique {op : String} {a b c d : Constant} (hc : Denotes2 op a b c)
    (hd : Denotes2 op a b d) : c = d := by
  cases hc with
  | bool h =>
    cases hd with
    | bool h' =>
      rw [h] at h'
      cases h'
      rfl
    | word _ _ hx => cases hx
    | truth _ hx => cases hx
  | word _ hb hx hy h hc =>
    cases hd with
    | bool => cases hx
    | word _ hb' hx' hy' h' hd =>
      rw [hb] at hb'
      cases hb'
      rw [hx] at hx'
      cases hx'
      rw [hy] at hy'
      cases hy'
      rw [h] at h'
      cases h'
      exact hc.unique hd
    | truth _ hx' hy' h' =>
      rw [hx] at hx'
      cases hx'
      rw [hy] at hy'
      cases hy'
      rw [intComparison_of_operator h] at h'
      cases h'
  | truth _ hx hy h =>
    cases hd with
    | bool => cases hx
    | word _ _ hx' hy' h' =>
      rw [hx] at hx'
      cases hx'
      rw [hy] at hy'
      cases hy'
      rw [intComparison_of_operator h'] at h
      cases h
    | truth _ hx' hy' h' =>
      rw [hx] at hx'
      cases hx'
      rw [hy] at hy'
      cases hy'
      rw [h] at h'
      cases h'
      rfl

section Folding

variable {op : String} {a b c : Constant} {x y : Int} {bits : Nat}

theorem integer_of_isSimple (h : a.IsSimple) : (∃ x, a = .bool x) ∨ ∃ x, a.integer? = some x := by
  cases a <;> simp_all [IsSimple, baseType, BaseType.isInteger, integer?]

theorem isSimple_of_isWord {type : BaseType} (h : IsWord type x c) : c.IsSimple := by
  obtain ⟨bits, y, _, _, hy, _⟩ := h
  cases c <;> cases hy <;> exact .inr rfl

theorem isWord_self (h : a.integer? = some x) : IsWord a.baseType x a := by
  cases a <;> cases h <;> exact ⟨_, _, rfl, rfl, rfl, rfl⟩

theorem denotes_fold1 (ha : a.IsSimple) (h : fold1 op a = some c) :
    Denotes1 op a c ∧ c.IsSimple := by
  unfold fold1 at h
  split at h
  · cases h
    exact ⟨.bool rfl, .inl rfl⟩
  · rcases ha with ha | ha <;> cases ha
  · rcases ha with ha | ha <;> cases ha
  · split at h
    · cases h
      rcases integer_of_isSimple ha with ⟨x, rfl⟩ | ⟨x, hx⟩
      · rename_i hn
        cases hn
      · exact ⟨.word hx rfl (isWord_self hx), ha⟩
    · cases h
  · obtain ⟨x, hx, hc⟩ := Option.bind_eq_some_iff.1 h
    have hw := isWord_wrapTo hc
    exact ⟨.word hx rfl hw, isSimple_of_isWord hw⟩
  · obtain ⟨x, hx, hc⟩ := Option.bind_eq_some_iff.1 h
    have hw := isWord_wrapTo hc
    exact ⟨.word hx rfl hw, isSimple_of_isWord hw⟩
  · cases h

/-- A comparison of words is the comparison of the integers. -/
theorem compareBy_eq_some (h : compareBy op (compare x y) = some c) :
    ∃ z, intComparison op x y = some z ∧ c = .bool z := by
  have heq : (compare x y == Ordering.eq) = decide (x = y) := by
    rw [Bool.eq_iff_iff, beq_iff_eq, decide_eq_true_iff, Std.compare_eq_iff_eq]
  have hlt : (compare x y == Ordering.lt) = decide (x < y) := by
    rw [Bool.eq_iff_iff, beq_iff_eq, decide_eq_true_iff, Std.compare_eq_lt]
  have hgt : (compare x y == Ordering.gt) = decide (y < x) := by
    rw [Bool.eq_iff_iff, beq_iff_eq, decide_eq_true_iff, Std.compare_eq_gt]
  unfold compareBy at h
  unfold intComparison
  split at h <;> cases h
  · exact ⟨_, rfl, by rw [heq]⟩
  · exact ⟨_, rfl, by simp only [bne, heq, ne_eq, decide_not]⟩
  · exact ⟨_, rfl, by rw [hlt]⟩
  · exact ⟨_, rfl, by simp only [bne, hgt, ← decide_not, Int.not_lt]⟩
  · exact ⟨_, rfl, by rw [hgt]⟩
  · exact ⟨_, rfl, by simp only [bne, hlt, ← decide_not, Int.not_lt]⟩

theorem foldBools_eq_some {x y : Bool} (h : foldBools op x y = some c) :
    ∃ z, boolOperator2 op x y = some z ∧ c = .bool z := by
  unfold foldBools at h
  unfold boolOperator2
  split at h <;> cases h <;> exact ⟨_, rfl, rfl⟩

theorem isWord_bitwise {type : BaseType} {f : BitVec 65 → BitVec 65 → BitVec 65}
    {g : BitVec bits → BitVec bits → BitVec bits} (hbits : type.bits? = some bits)
    (hfg : ∀ a b, (f a b).setWidth bits = g (a.setWidth bits) (b.setWidth bits))
    (h : wrapTo? type (bitwise f x y) = some c) :
    IsWord type (g (.ofInt bits x) (.ofInt bits y)).toInt c := by
  have hle : bits ≤ 65 := by
    cases type <;> cases hbits <;> decide
  exact (isWord_wrapTo h).congr hbits (bitwise_emod hle hfg x y)

/-- Words are computed exactly and then take their residue, or they are compared. -/
theorem foldIntegers_eq_some {type : BaseType} (hbits : type.bits? = some bits)
    (h : foldIntegers op type bits x y = some c) :
    (∃ z, intOperator2 bits op x y = some z ∧ IsWord type z c) ∨
      ∃ z, intComparison op x y = some z ∧ c = .bool z := by
  unfold foldIntegers at h
  split at h
  · exact .inl ⟨_, rfl, isWord_wrapTo h⟩
  · exact .inl ⟨_, rfl, isWord_wrapTo h⟩
  · exact .inl ⟨_, rfl, isWord_wrapTo h⟩
  · split at h
    · cases h
    · rename_i hy
      exact .inl ⟨_, if_neg hy, isWord_wrapTo h⟩
  · split at h
    · cases h
    · rename_i hy
      exact .inl ⟨_, if_neg hy, isWord_wrapTo h⟩
  · exact .inl ⟨_, rfl, isWord_bitwise hbits (fun _ _ => BitVec.setWidth_and) h⟩
  · exact .inl ⟨_, rfl, isWord_bitwise hbits (fun _ _ => BitVec.setWidth_or) h⟩
  · exact .inl ⟨_, rfl, isWord_bitwise hbits (fun _ _ => BitVec.setWidth_xor) h⟩
  · split at h
    · rename_i hy
      rw [Int.shiftLeft_eq] at h
      exact .inl ⟨_, if_pos hy, isWord_wrapTo h⟩
    · cases h
  · split at h
    · rename_i hy
      rw [Int.shiftRight_eq_div_pow] at h
      exact .inl ⟨_, if_pos hy, isWord_wrapTo h⟩
    · cases h
  · exact .inr (compareBy_eq_some h)

theorem denotes_fold2 (ha : a.IsSimple) (h : fold2 op a b = some c) :
    Denotes2 op a b c ∧ c.IsSimple := by
  unfold fold2 at h
  split at h
  · cases h
  · rename_i ht
    have ht : a.baseType = b.baseType := Decidable.not_not.1 ht
    split at h
    · obtain ⟨z, hz, rfl⟩ := foldBools_eq_some h
      exact ⟨.bool hz, .inl rfl⟩
    · rcases ha with ha | ha <;> cases ha
    · rcases ha with ha | ha <;> cases ha
    · split at h
      · rename_i hb hx hy
        rcases foldIntegers_eq_some hb h with ⟨z, hz, hc⟩ | ⟨z, hz, rfl⟩
        · exact ⟨.word ht hb hx hy hz hc, isSimple_of_isWord hc⟩
        · exact ⟨.truth ht hx hy hz, .inl rfl⟩
      · cases h

end Folding

end Constant

end Frontend
