import Frontend.Decl.Basic
import Frontend.Proofs.Constant.Wide
import Mathlib.Algebra.GroupWithZero.Divisibility

/-!
# Numbering the values of an enumeration

An entry without a value gets a number of the storage type. It is one more than the last integer
among the values before it, wherever that stands, and zero if there is none. So after a value that
is no integer the count goes on from before: it restarts at zero only if it happens to be there.
-/

namespace Frontend

open Constant

def Expr.integer? (e : Expr) : Option Int := e.const?.bind Constant.integer?

theorem Expr.int64?_eq (e : Expr) : e.int64? = e.integer?.map .ofInt := by
  unfold Expr.int64? Expr.integer?
  cases e.const? <;> rfl

namespace Enumeration

def integerOf? (entry : String × Option Expr) : Option Int := entry.2.bind Expr.integer?

/-- The number behind some entries: one more than the last integer among them, or zero. -/
def numberBehind (entries : List (String × Option Expr)) : Int :=
  ((entries.reverse.findSome? integerOf?).map (· + 1)).getD 0

/-- The number behind some entries if the count restarts at a value that is no integer: one more
than the last value if that is an integer, and zero otherwise. -/
def numberRestarted (entries : List (String × Option Expr)) : Int :=
  ((entries.getLast?.bind integerOf?).map (· + 1)).getD 0

theorem numberBehind_concat (entries : List (String × Option Expr)) (entry : String × Option Expr) :
    numberBehind (entries ++ [entry]) =
      match integerOf? entry with
      | some x => x + 1
      | none => numberBehind entries := by
  unfold numberBehind
  rw [List.reverse_concat, List.findSome?_cons]
  cases integerOf? entry <;> rfl

/-- The two ways to count agree but behind a value that is no integer. -/
theorem numberBehind_cases (entries : List (String × Option Expr)) :
    (∃ entry, entries.getLast? = some entry ∧ integerOf? entry = none ∧
      numberRestarted entries = 0) ∨
    (∀ entry, entries.getLast? = some entry → integerOf? entry ≠ none) ∧
      numberRestarted entries = numberBehind entries := by
  rcases List.eq_nil_or_concat entries with rfl | ⟨before, entry, rfl⟩
  · exact .inr ⟨nofun, rfl⟩
  · rw [List.concat_eq_append, numberBehind_concat, numberRestarted, List.getLast?_concat,
      Option.bind_some]
    cases h : integerOf? entry with
    | none => exact .inl ⟨entry, rfl, h, rfl⟩
    | some x =>
      refine .inr ⟨fun other hother => ?_, rfl⟩
      cases hother
      simp [h]

section Counting

variable {base : BaseType} {bits : Nat}

theorem toInt_succ_emod (hbits : bits ≤ 64) {next : Int64} {x : Int}
    (h : next.toInt % 2 ^ bits = x % 2 ^ bits) :
    (next + 1).toInt % 2 ^ bits = (x + 1) % 2 ^ bits := by
  have divides : (2 : Int) ^ bits ∣ 2 ^ 64 := pow_dvd_pow 2 hbits
  have wraps : (next + 1).toInt % 2 ^ 64 = (next.toInt + 1) % 2 ^ 64 := by
    rw [Int64.toInt_add]
    exact Int.bmod_emod
  rw [← Int.emod_emod_of_dvd _ divides, wraps, Int.emod_emod_of_dvd _ divides, Int.add_emod, h,
    ← Int.add_emod]

/-- The literal that numbers an entry is the word of the number. -/
theorem numeral_word (hbase : base.bits? = some bits) (next : Int64) :
    ∃ c, numeral base next = .ofNode .builtin (.literal (.const c)) ∧ IsWord base next.toInt c := by
  obtain ⟨c, hc, word⟩ := exists_wrapTo hbase next.toInt
  refine ⟨c, ?_, word⟩
  have made : Constant.ofInt64? base next = some c := hc
  rw [numeral, made]
  rfl

theorem integerOf?_numeral {name : String} {span : Span} {c : Constant} :
    integerOf? (name, some (.ofNode span (.literal (.const c)))) = c.integer? := rfl

/-- What becomes of an entry behind others: a value stays, and a missing one is numbered. -/
def Numbered (base : BaseType) (before : List (String × Option Expr))
    (entry result : String × Option Expr) : Prop :=
  (∀ value, entry.2 = some value → result = entry) ∧
    (entry.2 = none → ∃ c, result = (entry.1, some (.ofNode .builtin (.literal (.const c)))) ∧
      IsWord base (numberBehind before) c)

/-- One entry is taken: the count stays that of the entries so far, up to the width of the storage
type. -/
theorem numberFrom_step (hbase : base.bits? = some bits) {next : Int64}
    {before : List (String × Option Expr)}
    (h : next.toInt % 2 ^ bits = numberBehind before % 2 ^ bits) (entry : String × Option Expr)
    (rest : List (String × Option Expr)) :
    ∃ result next', numberFrom base next (entry :: rest) = result :: numberFrom base next' rest ∧
      Numbered base before entry result ∧
      next'.toInt % 2 ^ bits = numberBehind (before ++ [result]) % 2 ^ bits := by
  have width := bits_le hbase
  obtain ⟨name, value | value⟩ := entry
  · obtain ⟨c, hnumeral, word⟩ := numeral_word hbase next
    refine ⟨(name, some (numeral base next)), next + 1, rfl, ⟨nofun, fun _ => ?_⟩, ?_⟩
    · exact ⟨c, by rw [hnumeral], word.congr hbase h⟩
    · obtain ⟨bits', y, hbits', -, hy, congruent⟩ := word
      obtain rfl : bits = bits' := Option.some.inj (hbase.symm.trans hbits')
      rw [numberBehind_concat, hnumeral, integerOf?_numeral, hy]
      exact toInt_succ_emod width congruent.symm
  · have kept : Numbered base before (name, some value) (name, some value) :=
      ⟨fun _ _ => rfl, nofun⟩
    have read : integerOf? (name, some value) = value.integer? := rfl
    cases hvalue : value.integer? with
    | none =>
      refine ⟨(name, some value), next, ?_, kept, ?_⟩
      · rw [numberFrom, Expr.int64?_eq, hvalue]
        rfl
      · rw [numberBehind_concat, read, hvalue]
        exact h
    | some x =>
      refine ⟨(name, some value), Int64.ofInt x + 1, ?_, kept, ?_⟩
      · rw [numberFrom, Expr.int64?_eq, hvalue]
        rfl
      · rw [numberBehind_concat, read, hvalue]
        exact toInt_succ_emod width (ofInt_emod width x)

/-- The run over all entries, by induction on them with the count of those before. -/
theorem numberFrom_numbers (hbase : base.bits? = some bits) {next : Int64}
    {before entries : List (String × Option Expr)}
    (h : next.toInt % 2 ^ bits = numberBehind before % 2 ^ bits) :
    (numberFrom base next entries).length = entries.length ∧
    ∀ (i : Nat) (entry : String × Option Expr), entries[i]? = some entry → ∃ result,
      (numberFrom base next entries)[i]? = some result ∧
      Numbered base (before ++ (numberFrom base next entries).take i) entry result := by
  induction entries generalizing next before with
  | nil => exact ⟨rfl, nofun⟩
  | cons first rest ih =>
    obtain ⟨result, next', run, numbered, count⟩ := numberFrom_step hbase h first rest
    obtain ⟨length, later⟩ := ih count
    rw [run]
    refine ⟨congrArg (· + 1) length, fun i entry hentry => ?_⟩
    cases i with
    | zero =>
      cases hentry
      exact ⟨result, rfl, by rwa [List.take_zero, List.append_nil]⟩
    | succ i =>
      obtain ⟨y, hy, hnumbered⟩ := later i entry hentry
      refine ⟨y, hy, ?_⟩
      rwa [List.append_assoc, List.singleton_append] at hnumbered

end Counting

/-- Nothing but missing values changes, and every entry has a value afterwards. A missing one
becomes the word of the number behind the entries before it. That is the number that a count would
give that restarts at values that are no integers, unless such a value stands right before the
entry: then it is so exactly if the count is at zero there. -/
theorem resolveValues_numbers {e : Enumeration} {bits : Nat} (h : e.base.bits? = some bits) :
    { e.resolveValues with entries := e.entries } = e ∧
    e.resolveValues.entries.length = e.entries.length ∧
    (∀ entry ∈ e.resolveValues.entries, entry.2.isSome = true) ∧
    (∀ (i : Nat) name value, e.entries[i]? = some (name, some value) →
      e.resolveValues.entries[i]? = some (name, some value)) ∧
    ∀ (i : Nat) name, e.entries[i]? = some (name, none) →
      ∃ c, e.resolveValues.entries[i]? =
          some (name, some (.ofNode .builtin (.literal (.const c)))) ∧
        IsWord e.base (numberBehind (e.resolveValues.entries.take i)) c ∧
        (IsWord e.base (numberRestarted (e.resolveValues.entries.take i)) c ↔
          ∀ entry, (e.resolveValues.entries.take i).getLast? = some entry →
            integerOf? entry = none →
              numberBehind (e.resolveValues.entries.take i) % 2 ^ bits = 0) := by
  have start : (0 : Int64).toInt % 2 ^ bits = numberBehind [] % 2 ^ bits := rfl
  obtain ⟨length, numbers⟩ := numberFrom_numbers h start
  have length : e.resolveValues.entries.length = e.entries.length := length
  have numbers (i : Nat) (entry : String × Option Expr) (hentry : e.entries[i]? = some entry) :
      ∃ result, e.resolveValues.entries[i]? = some result ∧
        Numbered e.base (e.resolveValues.entries.take i) entry result := numbers i entry hentry
  refine ⟨rfl, length, fun entry hentry => ?_, fun i name value hentry => ?_,
    fun i name hentry => ?_⟩
  · obtain ⟨i, hi⟩ := List.mem_iff_getElem?.1 hentry
    have inside : i < e.entries.length := by
      have := (List.getElem?_eq_some_iff.1 hi).1
      omega
    obtain ⟨result, hresult, keeps, fills⟩ := numbers i _ (List.getElem?_eq_getElem inside)
    obtain rfl : entry = result := Option.some.inj (hi.symm.trans hresult)
    cases hvalue : e.entries[i].2 with
    | none =>
      obtain ⟨c, rfl, -⟩ := fills hvalue
      rfl
    | some value =>
      rw [keeps value hvalue, hvalue]
      rfl
  · obtain ⟨result, hresult, keeps, -⟩ := numbers i _ hentry
    rw [hresult, keeps value rfl]
  · obtain ⟨result, hresult, -, fills⟩ := numbers i _ hentry
    obtain ⟨c, rfl, word⟩ := fills rfl
    refine ⟨c, hresult, word, ?_⟩
    rcases numberBehind_cases (e.resolveValues.entries.take i) with
      ⟨entry, last, noInteger, restarted⟩ | ⟨integers, same⟩
    · rw [restarted]
      constructor
      · intro zero _ _ _
        obtain ⟨bits', y, hbits', -, hy, congruent⟩ := word
        obtain ⟨bits'', z, hbits'', -, hz, isZero⟩ := zero
        obtain rfl : bits = bits' := Option.some.inj (h.symm.trans hbits')
        obtain rfl : bits = bits'' := Option.some.inj (h.symm.trans hbits'')
        obtain rfl : y = z := Option.some.inj (hy.symm.trans hz)
        rw [← congruent, isZero, Int.zero_emod]
      · intro atZero
        have := atZero entry last noInteger
        exact word.congr h (by rw [this, Int.zero_emod])
    · rw [same]
      exact iff_of_true word fun entry last noInteger => absurd noInteger (integers entry last)

/-- Bytes, some of them numbered: two behind the name of something, one behind a word that is wider
than the storage type. -/
def gapped : Enumeration where
  name := "E"
  base := .uint8
  entries := [("a", none), ("b", some (.ofNode .builtin (.var { name := "x" }))), ("c", none),
    ("d", some (.const .builtin (.int64 300))), ("e", none)]

theorem resolveValues_numbers_gapped :
    gapped.base.bits? = some 8 ∧ gapped.resolveValues.entries.length = 5 ∧
    (∃ c, gapped.resolveValues.entries[2]? =
        some ("c", some (.ofNode .builtin (.literal (.const c)))) ∧
      IsWord .uint8 1 c ∧ ¬ IsWord .uint8 0 c) ∧
    ∃ c, gapped.resolveValues.entries[4]? =
        some ("e", some (.ofNode .builtin (.literal (.const c)))) ∧ IsWord .uint8 301 c := by
  have eightBits : gapped.base.bits? = some 8 := rfl
  obtain ⟨-, length, -, -, numbers⟩ := resolveValues_numbers eightBits
  obtain ⟨c, hc, word, restarts⟩ := numbers 2 "c" rfl
  obtain ⟨d, hd, next, -⟩ := numbers 4 "e" rfl
  refine ⟨eightBits, length, ⟨c, hc, word, fun zero => ?_⟩, d, hd, next⟩
  exact absurd (restarts.1 zero _ rfl rfl) (by decide)

/-- The count does not restart at zero behind a value that is no integer. -/
theorem numbering_goes_on_gapped :
    gapped.resolveValues.entries[1]? = gapped.entries[1]? ∧
    gapped.entries[1]?.bind integerOf? = none ∧
    gapped.resolveValues.entries[2]? =
      some ("c", some (.ofNode .builtin (.literal (.const (.uint8 1))))) ∧
    Constant.integer? (.uint8 1) ≠ some 0 :=
  ⟨rfl, rfl, rfl, by decide⟩

end Enumeration

end Frontend
