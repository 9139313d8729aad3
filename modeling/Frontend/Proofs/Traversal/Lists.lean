import Frontend.Proofs.Traversal.Children
import Frontend.Proofs.Traversal.Ends
import Frontend.Traversal.Walk

/-!
# Visits of lists

The elements of a list are visited one after the other, each once, from the first to the last. A
visit is told the position of its element in the list as it was, and whether its element was the
last one. What the visits leave makes up the new list, in the order of the old one.
-/

namespace Frontend

variable {σ α β : Type}

section Order

variable {P Q : Nat → Bool → α → Visit σ → Option β → Visit σ → Prop} {as : List α} {a : α}
  {n : Nat} {st st' : Visit σ} {bs : List β}

/-- The first elements of a list have been visited, `n` of them, one after the other. `P` tells what
a visit does: the position of the element, whether it is the last of the list, the element, the
state that the visit finds, what it leaves of the element, and the state for the next visit. What is
left of the elements makes up `bs`. -/
def VisitsUpTo (P : Nat → Bool → α → Visit σ → Option β → Visit σ → Prop) (as : List α) (n : Nat)
    (st : Visit σ) (bs : List β) (st' : Visit σ) : Prop :=
  ∃ (state : Nat → Visit σ) (left : Nat → Option β), state 0 = st ∧ state n = st' ∧
    (∀ k < n, ∀ hk : k < as.length,
      P k (k + 1 = as.length) as[k] (state k) (left k) (state (k + 1))) ∧
    bs = (List.range n).filterMap left

abbrev VisitsInOrder (P : Nat → Bool → α → Visit σ → Option β → Visit σ → Prop) (as : List α)
    (st : Visit σ) (bs : List β) (st' : Visit σ) : Prop :=
  VisitsUpTo P as as.length st bs st'

namespace VisitsUpTo

theorem congr (h : ∀ k last a st b st', P k last a st b st' ↔ Q k last a st b st') :
    VisitsUpTo P as n st bs st' ↔ VisitsUpTo Q as n st bs st' := by
  have same : P = Q := by
    funext k last a st b st'
    exact propext (h k last a st b st')
  rw [same]

theorem zero_iff : VisitsUpTo P as 0 st bs st' ↔ bs = [] ∧ st' = st := by
  constructor
  · rintro ⟨state, left, rfl, rfl, -, rfl⟩
    exact ⟨rfl, rfl⟩
  · rintro ⟨rfl, rfl⟩
    refine ⟨fun _ => st', fun _ => none, rfl, rfl, fun k hk => ?_, rfl⟩
    exact absurd hk (Nat.not_lt_zero k)

/-- The first element of a list is visited at position zero, and the others one position on. -/
theorem cons_iff : VisitsUpTo P (a :: as) (n + 1) st bs st' ↔ ∃ b st₁ bs',
    P 0 as.isEmpty a st b st₁ ∧ VisitsUpTo (fun k => P (k + 1)) as n st₁ bs' st' ∧
      bs = b.toList ++ bs' := by
  have first : decide (0 + 1 = (a :: as).length) = as.isEmpty := by cases as <;> simp
  have later (k : Nat) : decide (k + 1 + 1 = (a :: as).length) = decide (k + 1 = as.length) := by
    simp
  constructor
  · rintro ⟨state, left, rfl, rfl, each, rfl⟩
    refine ⟨left 0, state 1, (List.range n).filterMap fun k => left (k + 1), ?_, ?_, ?_⟩
    · rw [← first]
      exact each 0 (Nat.zero_lt_succ n) (Nat.zero_lt_succ _)
    · refine ⟨fun k => state (k + 1), fun k => left (k + 1), rfl, rfl, fun k hkn hk => ?_, rfl⟩
      rw [← later]
      exact each (k + 1) (Nat.succ_lt_succ hkn) (Nat.succ_lt_succ hk)
    · rw [List.range_succ_eq_map, filterMap_cons_toList, List.filterMap_map]
      rfl
  · rintro ⟨b, st₁, bs', head, ⟨state, left, rfl, rfl, each, rfl⟩, rfl⟩
    refine ⟨fun k => Nat.casesOn k st state, fun k => Nat.casesOn k b left, rfl, rfl, ?_, ?_⟩
    · intro k hkn hk
      cases k with
      | zero =>
        rw [first]
        exact head
      | succ k =>
        rw [later]
        exact each k (Nat.lt_of_succ_lt_succ hkn) (Nat.lt_of_succ_lt_succ hk)
    · rw [List.range_succ_eq_map, filterMap_cons_toList, List.filterMap_map]
      rfl

/-- Either all elements are visited, or one of them is not once those before it are. -/
theorem all_or_stops (P : Nat → Bool → α → Visit σ → Option β → Visit σ → Prop) (as : List α)
    (st : Visit σ) : (∃ bs st', VisitsInOrder P as st bs st') ∨
      ∃ k, ∃ hk : k < as.length, ∃ bs st₁, VisitsUpTo P as k st bs st₁ ∧
        ∀ b st₂, ¬ P k (k + 1 = as.length) as[k] st₁ b st₂ := by
  induction as generalizing P st with
  | nil => exact .inl ⟨[], st, zero_iff.2 ⟨rfl, rfl⟩⟩
  | cons a as ih =>
    by_cases head : ∃ b st₁, P 0 as.isEmpty a st b st₁
    · obtain ⟨b, st₁, head⟩ := head
      rcases ih (fun k => P (k + 1)) st₁ with ⟨bs, st', all⟩ | ⟨k, hk, bs, st', before, stops⟩
      · exact .inl ⟨_, _, cons_iff.2 ⟨b, st₁, bs, head, all, rfl⟩⟩
      · refine .inr ⟨k + 1, Nat.succ_lt_succ hk, b.toList ++ bs, st', ?_, fun b st₂ visit =>
          stops b st₂ ?_⟩
        · exact cons_iff.2 ⟨b, st₁, bs, head, before, rfl⟩
        · simpa using visit
    · refine .inr ⟨0, Nat.zero_lt_succ _, [], st, zero_iff.2 ⟨rfl, rfl⟩, fun b st₁ visit => ?_⟩
      apply head
      refine ⟨b, st₁, ?_⟩
      cases as <;> simpa using visit

end VisitsUpTo

/-- The visit of a list comes to an end exactly as the visits of its elements in order do, with what
they leave as its result. If it doesn't then one of the elements is not visited in the state that
those before it leave. -/
structure VisitsExactly (visit : List α → VisitM σ (List β))
    (P : Nat → Bool → α → Visit σ → Option β → Visit σ → Prop) : Prop where
  ends_iff : ∀ as st bs st', (visit as).run st = .ok (bs, st') ↔ VisitsInOrder P as st bs st'
  ends_or_stops : ∀ as st, (∃ bs st', (visit as).run st = .ok (bs, st')) ∨
    ∃ k, ∃ hk : k < as.length, ∃ bs st₁, VisitsUpTo P as k st bs st₁ ∧
      ∀ b st₂, ¬ P k (k + 1 = as.length) as[k] st₁ b st₂

theorem visitEach_run_iff {f : Nat → Bool → α → VisitM σ (Option α)} {as bs : List α} {i : Nat} :
    (visitEach f i as).run st = .ok (bs, st') ↔ VisitsInOrder
      (fun k last a st b st' => (f (i + k) last a).run st = .ok (b, st')) as st bs st' := by
  induction as generalizing i st bs st' with
  | nil =>
    refine Iff.trans ?_ VisitsUpTo.zero_iff.symm
    constructor
    · intro h
      cases h
      exact ⟨rfl, rfl⟩
    · rintro ⟨rfl, rfl⟩
      rfl
  | cons a as ih =>
    have shift (k : Nat) : i + 1 + k = i + (k + 1) := by omega
    simp only [visitEach, run_bind_eq_ok_iff, ih, shift]
    refine Iff.trans ?_ VisitsUpTo.cons_iff.symm
    constructor
    · rintro ⟨b, st₁, head, bs', st₂, rest, last⟩
      cases last
      exact ⟨b, st₁, bs', head, rest, rfl⟩
    · rintro ⟨b, st₁, bs', head, rest, rfl⟩
      exact ⟨b, st₁, head, bs', st', rest, rfl⟩

theorem VisitsExactly.of_visitEach {f : Nat → Bool → α → VisitM σ (Option α)}
    {P : Nat → Bool → α → Visit σ → Option α → Visit σ → Prop}
    (h : ∀ k last a st b st', (f k last a).run st = .ok (b, st') ↔ P k last a st b st') :
    VisitsExactly (visitEach f 0) P := by
  have ends (as st bs st') :
      (visitEach f 0 as).run st = .ok (bs, st') ↔ VisitsInOrder P as st bs st' := by
    rw [visitEach_run_iff]
    apply VisitsUpTo.congr
    simpa using h
  refine ⟨ends, fun as st => ?_⟩
  simp only [ends]
  exact VisitsUpTo.all_or_stops P as st

end Order

end Frontend
