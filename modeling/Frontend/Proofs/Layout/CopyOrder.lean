import Frontend.Proofs.Layout.Containment

/-!
# The order of the copy queries

Plain data can be copied, and what can be copied can be cloned. Each base type that answers yes to
one of these queries answers yes to the next, and whatever else is asked is asked of the same parts,
so a yes goes through nested types and structures. The next query has an answer then, though it may
go on without end where the one before says no.
-/

namespace Frontend

namespace CopyQuery

/-- A yes to the first query is to be one to the second. -/
inductive Implies : CopyQuery → CopyQuery → Prop
  | podCopy : Implies pod copy
  | copyClone : Implies copy clone

namespace Implies

variable {q r : CopyQuery} {b : BaseType}

theorem base?_eq_true (h : q.Implies r) (yes : q.base? b = some true) : r.base? b = some true := by
  cases h <;> cases b <;> first | rfl | cases yes

/-- What the first query asks of the parts of a type is asked of them by the second too, but for
handled types, which can always be cloned. -/
theorem base_of_none (h : q.Implies r) (asked : q.base? b = none) :
    (b = .struct ∨ b = .tuple ∨ b = .variant) ∧ r.base? b = none ∨
      b = .handle ∧ (r.base? b = none ∨ r.base? b = some true) := by
  cases h <;> cases b <;> simp_all [base?]

end Implies

end CopyQuery

namespace Store

variable {s : Store} {f : CopyQuery → StructId → Except Fault Bool} {q r : CopyQuery} {t : Ty}
  {ts : List Ty} {id : StructId}

theorem copyAllWith_eq_true :
    s.copyAllWith f q ts = .ok true ↔ ∀ t ∈ ts, s.copyWith f q t = .ok true := by
  induction ts with
  | nil => exact iff_of_true rfl fun _ ht => absurd ht List.not_mem_nil
  | cons t ts ih =>
    rw [copyAllWith, List.forall_mem_cons, ← ih]
    cases s.copyWith f q t with
    | error fault => exact iff_of_false nofun fun h => nomatch h.1
    | ok answer =>
      cases answer with
      | false => exact iff_of_false nofun fun h => nomatch h.1
      | true => exact (and_iff_right rfl).symm

/-- A yes for a type is one to the next query if that is so of structures. -/
theorem copyWith_implies (h : q.Implies r) (structs : ∀ id, f q id = .ok true → f r id = .ok true)
    (yes : s.copyWith f q t = .ok true) : s.copyWith f r t = .ok true := by
  induction t using Ty.induction_args with
  | step t ih =>
    have parts (all : s.copyAllWith f q t.args = .ok true) : s.copyAllWith f r t.args = .ok true :=
      copyAllWith_eq_true.2 fun u hu => ih u hu (copyAllWith_eq_true.1 all u hu)
    rw [copyWith_eq] at yes ⊢
    cases asked : q.base? t.base with
    | some answer =>
      rw [asked] at yes
      cases yes
      rw [h.base?_eq_true asked]
    | none =>
      rw [asked] at yes
      obtain ⟨base | base | base, next⟩ | ⟨base, next⟩ := h.base_of_none asked
      · rw [base] at yes next ⊢
        rw [next]
        cases live : s.liveStruct? t with
        | none =>
          rw [live] at yes
          cases yes
        | some id =>
          rw [live] at yes
          exact structs id yes
      · rw [base] at yes next ⊢
        rw [next]
        exact parts yes
      · rw [base] at yes next ⊢
        rw [next]
        exact parts yes
      · rw [base] at yes next ⊢
        rcases next with next | next <;> rw [next]
        exact yes

/-- The run from structure to structure, by induction on its steps. -/
theorem structCopyIn_implies (h : q.Implies r) (steps : Nat)
    (yes : s.structCopyIn steps q id = .ok true) : s.structCopyIn steps r id = .ok true := by
  induction steps generalizing id with
  | zero => cases yes
  | succ steps ih =>
    unfold structCopyIn at yes ⊢
    cases hx : s.struct? id with
    | none =>
      rw [hx] at yes
      cases yes
    | some x =>
      rw [hx] at yes
      have fields := copyAllWith_eq_true.1 yes
      exact copyAllWith_eq_true.2 fun u hu => copyWith_implies h (fun id => ih) (fields u hu)

/-- Plain data can be copied, and what can be copied can be cloned: of a type and of a structure, in
as many steps from structure to structure as it takes. -/
theorem copyQueries_ordered (s : Store) :
    (∀ t, (s.typeCopy .pod t = .ok true → s.typeCopy .copy t = .ok true) ∧
      (s.typeCopy .copy t = .ok true → s.typeCopy .clone t = .ok true)) ∧
    (∀ id, (s.structCopy .pod id = .ok true → s.structCopy .copy id = .ok true) ∧
      (s.structCopy .copy id = .ok true → s.structCopy .clone id = .ok true)) ∧
    ∀ steps q r, q.Implies r →
      (∀ t, s.copyWith (s.structCopyIn steps) q t = .ok true →
        s.copyWith (s.structCopyIn steps) r t = .ok true) ∧
      ∀ id, s.structCopyIn steps q id = .ok true → s.structCopyIn steps r id = .ok true := by
  have structs (steps : Nat) {q r : CopyQuery} (h : q.Implies r) (id : StructId)
      (yes : s.structCopyIn steps q id = .ok true) : s.structCopyIn steps r id = .ok true :=
    structCopyIn_implies h steps yes
  exact ⟨fun t => ⟨copyWith_implies .podCopy (structs _ .podCopy),
      copyWith_implies .copyClone (structs _ .copyClone)⟩,
    fun id => ⟨structs _ .podCopy id, structs _ .copyClone id⟩,
    fun steps q r h => ⟨fun t => copyWith_implies h (structs steps h), structs steps h⟩⟩

/-- Structures of numbers, of text and of lists, the last with the second as a handled type: none of
the implications is an equivalence. -/
def graded : Store where
  structs := ⟨#[some { name := "Numbers", fields := [{ name := "n", type := .ofBase .int },
      { name := "m", type := .tuple [.ofBase .float, .pointer (.array .auto)] [] }] },
    some { name := "Text", fields := [{ name := "t", type := .ofBase .string },
      { name := "n", type := .struct ⟨0⟩ }] },
    some { name := "Words", fields := [{ name := "w", type := .array (.ofBase .string) },
      { name := "h", type := .handle ⟨0⟩ }] }]⟩
  annots := ⟨#[some { name := "Text", kind := .structType false (some ⟨1⟩) }]⟩

theorem copyQueries_ordered_graded :
    (graded.structCopy .pod ⟨0⟩ = .ok true ∧ graded.structCopy .copy ⟨0⟩ = .ok true ∧
      graded.structCopy .clone ⟨0⟩ = .ok true) ∧
    (graded.structCopy .pod ⟨1⟩ = .ok false ∧ graded.structCopy .copy ⟨1⟩ = .ok true ∧
      graded.structCopy .clone ⟨1⟩ = .ok true) ∧
    (graded.structCopy .copy ⟨2⟩ = .ok false ∧ graded.structCopy .clone ⟨2⟩ = .ok true) ∧
    graded.typeCopy .pod (.tuple [.struct ⟨0⟩] []) = .ok true ∧
    graded.typeCopy .copy (.tuple [.struct ⟨0⟩] []) = .ok true := by
  obtain ⟨types, structs, -⟩ := copyQueries_ordered graded
  have numbers : graded.structCopy .pod ⟨0⟩ = .ok true := by rfl
  have copied := (structs ⟨0⟩).1 numbers
  have text : graded.structCopy .copy ⟨1⟩ = .ok true := by rfl
  have tuple : graded.typeCopy .pod (.tuple [.struct ⟨0⟩] []) = .ok true := by rfl
  exact ⟨⟨numbers, copied, (structs ⟨0⟩).2 copied⟩, ⟨by rfl, text, (structs ⟨1⟩).2 text⟩,
    ⟨by rfl, by rfl⟩, tuple, (types _).1 tuple⟩

end Store

end Frontend
