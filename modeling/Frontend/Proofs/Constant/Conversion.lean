import Frontend.Proofs.Constant.Wide

/-!
# Conversions between integer types

An integer constant converts to the word of its value in the other type, though it takes its way
through a signed 64-bit word, which does not hold all values. So widths that are passed on the way do
not matter as long as they are no less than the last one, and what fits into the other type comes
back as it was.
-/

namespace Frontend.Constant

variable {c d : Constant} {type via : BaseType} {bits : ℕ} {x y : ℤ}

theorem toWord_of_integer (hx : c.integer? = some x) : c.toWord? = some (.ofInt x) := by
  cases c <;> cases hx <;> rfl

theorem convert_to_integer (hb : type.bits? = some bits) (hne : c.baseType ≠ type) :
    c.convert? type = c.toWord?.bind (ofInt64? type) := by
  unfold convert?
  rw [if_neg hne]
  cases type <;> cases hb <;> rfl

/-- The value of a word is its own residue. -/
theorem IsWord.congr_integer (h : IsWord type x c) (hb : type.bits? = some bits)
    (hy : c.integer? = some y) : y % 2 ^ bits = x % 2 ^ bits := by
  obtain ⟨bits', z, hb', -, hz, hmod⟩ := h
  obtain rfl : bits = bits' := Option.some.inj (hb.symm.trans hb')
  obtain rfl : y = z := Option.some.inj (hy.symm.trans hz)
  exact hmod

theorem IsWord.exists_integer (h : IsWord type x c) : ∃ y, c.integer? = some y := by
  obtain ⟨-, y, -, -, hy, -⟩ := h
  exact ⟨y, hy⟩

theorem convert_isWord (hx : c.integer? = some x) (hb : type.bits? = some bits) :
    ∃ d, c.convert? type = some d ∧ IsWord type x d := by
  by_cases same : c.baseType = type
  · subst same
    exact ⟨c, if_pos rfl, isWord_self hx⟩
  · obtain ⟨d, hd, word⟩ := exists_wrapTo hb (Int64.ofInt x).toInt
    refine ⟨d, ?_, word.congr hb (ofInt_emod (bits_le hb) x)⟩
    rw [convert_to_integer hb same, toWord_of_integer hx]
    exact hd

/-- What a constant converts to is decided by the residue of its value. -/
theorem convert_congr (hx : c.integer? = some x) (hy : d.integer? = some y)
    (hb : type.bits? = some bits) (h : x % 2 ^ bits = y % 2 ^ bits) :
    c.convert? type = d.convert? type := by
  obtain ⟨e, he, word⟩ := convert_isWord hx hb
  obtain ⟨e', he', word'⟩ := convert_isWord hy hb
  rw [he, he', (word.congr hb h).unique word']

/-- A type on the way that is as wide as the last one is passed without a trace. -/
theorem convert_via {viaBits : ℕ} (hx : c.integer? = some x) (hb : type.bits? = some bits)
    (hvia : via.bits? = some viaBits) (wide : bits ≤ viaBits) :
    (c.convert? via).bind (·.convert? type) = c.convert? type := by
  obtain ⟨d, hd, word⟩ := convert_isWord hx hvia
  obtain ⟨y, hy⟩ := word.exists_integer
  rw [hd, Option.bind_some]
  exact convert_congr hy hx hb (emod_of_emod wide (word.congr_integer hvia hy))

/-- A value that the type has is kept. -/
theorem convert_keeps (hx : c.integer? = some x) (hd : d.baseType = type)
    (hdx : d.integer? = some x) : c.convert? type = some d := by
  subst hd
  obtain ⟨bits, hb⟩ := bits_of_integer hdx
  obtain ⟨e, he, word⟩ := convert_isWord hx hb
  rw [he, word.unique (isWord_self hdx)]

theorem convert_back (hx : c.integer? = some x) (hd : d.baseType = type)
    (hdx : d.integer? = some x) : (c.convert? type).bind (·.convert? c.baseType) = some c := by
  rw [convert_keeps hx hd hdx, Option.bind_some]
  exact convert_keeps hdx rfl hx

/-- An integer constant converts to an integer type as the one constant of the type that is
congruent to its value modulo two to the width. To convert it to a type in between that is as wide
makes no difference, and a value that the type has is kept and comes back as the same constant. -/
theorem conversion_modular (hx : c.integer? = some x) (hb : type.bits? = some bits) :
    (∃ d, c.convert? type = some d ∧ IsWord type x d ∧ ∀ d', IsWord type x d' → d' = d) ∧
    (∀ via viaBits, via.bits? = some viaBits → bits ≤ viaBits →
      (c.convert? via).bind (·.convert? type) = c.convert? type) ∧
    ∀ d, d.baseType = type → d.integer? = some x →
      c.convert? type = some d ∧ (c.convert? type).bind (·.convert? c.baseType) = some c := by
  refine ⟨?_, fun via viaBits hvia wide => convert_via hx hb hvia wide, fun d hd hdx =>
    ⟨convert_keeps hx hd hdx, convert_back hx hd hdx⟩⟩
  obtain ⟨d, hd, word⟩ := convert_isWord hx hb
  exact ⟨d, hd, word, fun d' word' => word'.unique word⟩

/-- The greatest unsigned word becomes minus one on the way to a byte, which is 255 all the same,
and minus five comes back from a word that is wider. -/
theorem conversion_modular_extremes :
    (∃ d, (uint64 (-1)).convert? .uint8 = some d ∧ IsWord .uint8 (2 ^ 64 - 1) d) ∧
    ((uint64 (-1)).convert? .int16).bind (·.convert? .uint8) = (uint64 (-1)).convert? .uint8 ∧
    ((int8 (-5)).convert? .int64).bind (·.convert? .int8) = some (int8 (-5)) := by
  have greatest := @conversion_modular (uint64 (-1)) .uint8 8 (2 ^ 64 - 1) (by decide) rfl
  have five := @conversion_modular (int8 (-5)) .int64 64 (-5) (by decide) rfl
  obtain ⟨⟨d, hd, word, -⟩, between, -⟩ := greatest
  exact ⟨⟨d, hd, word⟩, between .int16 16 rfl (by decide),
    (five.2.2 (int64 (-5)) rfl (by decide)).2⟩

end Frontend.Constant
