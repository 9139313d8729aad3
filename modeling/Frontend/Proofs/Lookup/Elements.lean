import Frontend.Expr.FieldIndex

/-!
# Elements of tuples by their names

A name that says a position stands for it whatever tuple it is used on, and so does the name of the
first element. The name of the last element and the labels of a tuple stand for elements that are
there.
-/

namespace Frontend

/-- The name says a position: digits behind an underscore, perhaps with a plus sign before them, for
a number that fits a word. -/
def SaysPosition (name : String) (n : Nat) : Prop :=
  ∃ digits : List Char, (name.toList = '_' :: digits ∨ name.toList = '_' :: '+' :: digits) ∧
    digits ≠ [] ∧ (∀ c ∈ digits, c.isDigit = true) ∧ Nat.ofDigitChars 10 digits 0 = n ∧
    n < Nat.pow 2 64

section Positions

variable {digits text : List Char} {name : String} {n i : Nat}

def wordOfDigits? (digits : List Char) : Option Nat :=
  if !digits.isEmpty && digits.all Char.isDigit then
    let n := Nat.ofDigitChars 10 digits 0
    if n < Nat.pow 2 64 then some n else none
  else none

theorem wordOfDigits?_eq_some_iff : wordOfDigits? digits = some n ↔
    digits ≠ [] ∧ (∀ c ∈ digits, c.isDigit = true) ∧ Nat.ofDigitChars 10 digits 0 = n ∧
      n < Nat.pow 2 64 := by
  unfold wordOfDigits?
  split
  · rename_i valid
    simp only [Bool.and_eq_true, Bool.not_eq_true', List.isEmpty_eq_false_iff,
      List.all_eq_true] at valid
    rw [and_iff_right valid.1, and_iff_right valid.2]
    dsimp only
    split
    · rename_i fits
      rw [Option.some.injEq]
      exact ⟨fun same => ⟨same, same ▸ fits⟩, And.left⟩
    · rename_i large
      refine iff_of_false nofun ?_
      rintro ⟨rfl, fits⟩
      exact large fits
  · rename_i invalid
    refine iff_of_false nofun ?_
    rintro ⟨some, all, -⟩
    exact invalid (by simpa [some] using all)

theorem decimalIndex?_plus (digits : List Char) :
    decimalIndex? (.ofList ('+' :: digits)) = wordOfDigits? digits := by
  unfold decimalIndex?
  rw [String.toList_ofList]
  rfl

theorem decimalIndex?_of_ne (h : ∀ digits, text ≠ '+' :: digits) :
    decimalIndex? (.ofList text) = wordOfDigits? text := by
  unfold decimalIndex?
  rw [String.toList_ofList]
  split
  · exact absurd rfl (h _)
  · rfl

/-- A plus sign is no digit, so it is never read as one. -/
theorem decimalIndex?_eq_some_iff : decimalIndex? (.ofList text) = some n ↔
    ∃ digits, (text = digits ∨ text = '+' :: digits) ∧ wordOfDigits? digits = some n := by
  by_cases plus : ∃ digits, text = '+' :: digits
  · obtain ⟨digits, rfl⟩ := plus
    rw [decimalIndex?_plus]
    constructor
    · exact fun h => ⟨digits, .inr rfl, h⟩
    · rintro ⟨other, rfl | same, h⟩
      · obtain ⟨-, all, -⟩ := wordOfDigits?_eq_some_iff.1 h
        exact absurd (all '+' (.head _)) (by decide)
      · cases same
        exact h
  · rw [decimalIndex?_of_ne fun digits same => plus ⟨digits, same⟩]
    constructor
    · exact fun h => ⟨text, .inl rfl, h⟩
    · rintro ⟨digits, rfl | same, h⟩
      · exact h
      · exact absurd ⟨digits, same⟩ plus

def position? (name : String) : Option Nat :=
  match name.toList with
  | '_' :: rest => decimalIndex? (.ofList rest)
  | _ => none

theorem position?_eq_some_iff : position? name = some n ↔ SaysPosition name n := by
  unfold position? SaysPosition
  simp only [← wordOfDigits?_eq_some_iff]
  split
  · rename_i rest underscore
    rw [decimalIndex?_eq_some_iff, underscore]
    simp only [List.cons.injEq, true_and]
  · rename_i other
    refine iff_of_false nofun ?_
    rintro ⟨digits, same | same, -⟩
    · exact other _ same
    · exact other _ same

end Positions

section Elements

variable {name : String} {t u : Ty} {n i : Nat}

def namedElement? (name : String) (u : Ty) : Option Nat :=
  match name with
  | "_first" => some 0
  | "_last" => if u.args.isEmpty then none else some (u.args.length - 1)
  | _ => u.argIndex? name

theorem tupleIndex?_eq (name : String) (known : t.accessed? = some u) :
    tupleIndex? name (some t) = (position? name <|> namedElement? name u) := by
  unfold tupleIndex?
  rw [Option.bind_some, known]
  rfl

/-- The first label that is the name. -/
theorem argIndex?_eq_some_iff : u.argIndex? name = some i ↔
    u.argNames[i]? = some name ∧ ∀ j < i, u.argNames[j]? ≠ some name := by
  unfold Ty.argIndex?
  rw [List.findIdx?_eq_some_iff_getElem]
  constructor
  · rintro ⟨inside, same, before⟩
    refine ⟨by simpa [List.getElem?_eq_getElem inside] using same, fun j hj here => ?_⟩
    have := before j hj
    rw [List.getElem?_eq_getElem (Nat.lt_trans hj inside), Option.some.injEq] at here
    exact this (by simpa using here)
  · rintro ⟨here, before⟩
    obtain ⟨inside, same⟩ := List.getElem?_eq_some_iff.1 here
    refine ⟨inside, by simpa using same, fun j hj same => before j hj ?_⟩
    rw [List.getElem?_eq_getElem (Nat.lt_trans hj inside)]
    simpa using same

theorem namedElement?_eq_some_iff : namedElement? name u = some i ↔
    name = "_first" ∧ i = 0 ∨ name = "_last" ∧ i + 1 = u.args.length ∨
      name ≠ "_first" ∧ name ≠ "_last" ∧ u.argNames[i]? = some name ∧
        ∀ j < i, u.argNames[j]? ≠ some name := by
  rw [← argIndex?_eq_some_iff]
  unfold namedElement?
  split
  · simp [eq_comm]
  · split
    · rename_i empty
      simp [List.isEmpty_iff.1 empty]
    · rename_i some
      have := List.length_pos_iff.2 (mt List.isEmpty_iff.2 some)
      simp only [Option.some.injEq, String.reduceEq, false_and, true_and, ne_eq, not_true_eq_false,
        and_false, false_or, or_false]
      omega
  · rename_i first last
    have first : name ≠ "_first" := first
    have last : name ≠ "_last" := last
    simp [first, last]

/-- A name stands for the position that it tells, and else for the first or the last element or for
the first element that it labels. So whatever it stands for is an element of the tuple exactly
unless it tells a position behind the last one, or it is the name of the first element and there is
none. -/
theorem tupleIndex_inside_iff (known : t.accessed? = some u)
    (labels : u.argNames = [] ∨ u.argNames.length = u.args.length) :
    (∀ i, tupleIndex? name (some t) = some i ↔ SaysPosition name i ∨
      (∀ n, ¬ SaysPosition name n) ∧ (name = "_first" ∧ i = 0 ∨
        name = "_last" ∧ i + 1 = u.args.length ∨
        name ≠ "_first" ∧ name ≠ "_last" ∧ u.argNames[i]? = some name ∧
          ∀ j < i, u.argNames[j]? ≠ some name)) ∧
    ((∀ i, tupleIndex? name (some t) = some i → i < u.args.length) ↔
      (∀ n, SaysPosition name n → n < u.args.length) ∧ (name = "_first" → u.args ≠ [])) := by
  have meaning (i : Nat) : tupleIndex? name (some t) = some i ↔ SaysPosition name i ∨
      (∀ n, ¬ SaysPosition name n) ∧ (name = "_first" ∧ i = 0 ∨
        name = "_last" ∧ i + 1 = u.args.length ∨
        name ≠ "_first" ∧ name ≠ "_last" ∧ u.argNames[i]? = some name ∧
          ∀ j < i, u.argNames[j]? ≠ some name) := by
    rw [tupleIndex?_eq name known, ← namedElement?_eq_some_iff]
    simp only [← position?_eq_some_iff]
    cases position? name <;> simp
  refine ⟨meaning, fun inside => ⟨fun n said => inside n ((meaning n).2 (.inl said)), ?_⟩, ?_⟩
  · rintro rfl empty
    have unsaid (n : Nat) : ¬ SaysPosition "_first" n := by
      rw [← position?_eq_some_iff]
      exact fun h => by cases h
    have := inside 0 ((meaning 0).2 (.inr ⟨unsaid, .inl ⟨rfl, rfl⟩⟩))
    rw [empty] at this
    exact absurd this (Nat.not_lt_zero 0)
  · rintro ⟨positions, first⟩ i found
    rcases (meaning i).1 found with said | ⟨-, ⟨rfl, rfl⟩ | ⟨-, last⟩ | ⟨-, -, label, -⟩⟩
    · exact positions i said
    · exact List.length_pos_iff.2 (first rfl)
    · omega
    · have inside := (List.getElem?_eq_some_iff.1 label).1
      rcases labels with none | each
      · rw [none] at inside
        exact absurd inside (Nat.not_lt_zero i)
      · omega

/-- A pair behind a pointer, with labels of which one is a name of the first element. -/
def labelledPair : Ty := .pointer (.tuple [.ofBase .int, .ofBase .float] ["y", "_first"])

theorem tupleIndex_inside_iff_labelledPair :
    labelledPair.accessed? = some (.tuple [.ofBase .int, .ofBase .float] ["y", "_first"]) ∧
    tupleIndex? "_first" (some labelledPair) = some 0 ∧
    tupleIndex? "_+01" (some labelledPair) = some 1 ∧
    ∀ i, tupleIndex? "_first" (some labelledPair) = some i → i < 2 := by
  have known : labelledPair.accessed? =
      some (.tuple [.ofBase .int, .ofBase .float] ["y", "_first"]) := rfl
  obtain ⟨-, inside⟩ := @tupleIndex_inside_iff "_first" _ _ known (.inr rfl)
  refine ⟨known, by decide, by decide, inside.2 ⟨fun n said => ?_, nofun⟩⟩
  rw [← position?_eq_some_iff] at said
  cases said

/-- A pair has no element at the position five, and the tuple without elements no first one. -/
theorem tupleIndex_outside :
    tupleIndex? "_5" (some (.tuple [.ofBase .int, .ofBase .int] [])) = some 5 ∧
    ¬ 5 < (Ty.tuple [.ofBase .int, .ofBase .int] []).args.length ∧
    tupleIndex? "_first" (some (.tuple [] [])) = some 0 ∧
    ¬ 0 < (Ty.tuple [] []).args.length ∧ tupleIndex? "_last" (some (.tuple [] [])) = none := by
  decide

end Elements

end Frontend
