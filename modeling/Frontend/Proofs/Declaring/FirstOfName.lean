import Frontend.Declare.Line
import Mathlib.Data.List.Nodup

/-!
# The first declaration of a name

Of declarations that come one after the other those are the first of their names that none before
them shares its name with, whatever became of it. Exactly these are kept, in order, and so the kept
ones have distinct names. Every other declaration clashes once, and with the first of its name.
-/

namespace Frontend

variable {α : Type}

/-- Each of some declarations, with all those that come before it. -/
def inTurn : List α → List α → List (List α × α)
  | _, [] => []
  | before, a :: as => (before, a) :: inTurn (before ++ [a]) as

/-- The declarations that are the first of their names, after some earlier ones. -/
def firsts (name : α → String) (earlier as : List α) : List α :=
  ((inTurn earlier as).filter fun (before, a) => before.all fun b => name b != name a).map (·.2)

/-- The other declarations, each with the first one of its name. -/
def repeats (name : α → String) (earlier as : List α) : List (α × α) :=
  (inTurn earlier as).filterMap fun (before, a) =>
    (before.find? fun b => name b == name a).map fun b => (a, b)

section Turns

variable {before earlier as : List α} {a : α}

theorem mem_inTurn : (before, a) ∈ inTurn earlier as ↔
    ∃ l r, as = l ++ a :: r ∧ before = earlier ++ l := by
  induction as generalizing earlier with
  | nil => simp [inTurn]
  | cons first as ih =>
    rw [inTurn, List.mem_cons, ih]
    constructor
    · rintro (here | ⟨l, r, rfl, rfl⟩)
      · cases here
        exact ⟨[], as, rfl, (List.append_nil _).symm⟩
      · exact ⟨first :: l, r, rfl, by simp⟩
    · rintro ⟨l, r, split, rfl⟩
      cases l with
      | nil =>
        cases split
        exact .inl (by simp)
      | cons b l =>
        cases split
        exact .inr ⟨l, r, rfl, by simp⟩

end Turns

section Names

variable {name : α → String} {earlier as : List α} {a b : α}

theorem all_ne_iff : (earlier.all fun b => name b != name a) = true ↔
    earlier.find? (fun b => name b == name a) = none := by
  simp

theorem firsts_cons_of_none (fresh : earlier.find? (fun b => name b == name a) = none) :
    firsts name earlier (a :: as) = a :: firsts name (earlier ++ [a]) as := by
  rw [firsts, inTurn, List.filter_cons, if_pos (all_ne_iff.2 fresh), List.map_cons]
  rfl

theorem firsts_cons_of_some (taken : earlier.find? (fun b => name b == name a) = some b) :
    firsts name earlier (a :: as) = firsts name (earlier ++ [a]) as := by
  rw [firsts, inTurn, List.filter_cons_of_neg, firsts]
  rw [all_ne_iff, taken]
  nofun

theorem repeats_cons_of_none (fresh : earlier.find? (fun b => name b == name a) = none) :
    repeats name earlier (a :: as) = repeats name (earlier ++ [a]) as := by
  rw [repeats, inTurn, List.filterMap_cons_none, repeats]
  dsimp only
  rw [fresh]
  rfl

theorem repeats_cons_of_some (taken : earlier.find? (fun b => name b == name a) = some b) :
    repeats name earlier (a :: as) = (a, b) :: repeats name (earlier ++ [a]) as := by
  rw [repeats, inTurn, List.filterMap_cons_some, repeats]
  dsimp only
  rw [taken]
  rfl

/-- The first ones have names that no earlier declaration has, and no two of them the same. -/
theorem mem_firsts : a ∈ firsts name earlier as ↔
    ∃ l r, as = l ++ a :: r ∧ ∀ b ∈ earlier ++ l, name b ≠ name a := by
  simp only [firsts, List.mem_map, List.mem_filter, List.all_eq_true, bne_iff_ne, Prod.exists,
    exists_eq_right, mem_inTurn]
  constructor
  · rintro ⟨_, ⟨l, r, split, rfl⟩, apart⟩
    exact ⟨l, r, split, apart⟩
  · rintro ⟨l, r, split, apart⟩
    exact ⟨_, ⟨l, r, split, rfl⟩, apart⟩

theorem fresh_of_mem_firsts (h : a ∈ firsts name earlier as) : ∀ b ∈ earlier, name b ≠ name a := by
  obtain ⟨l, r, -, apart⟩ := mem_firsts.1 h
  exact fun b hb => apart b (List.mem_append_left l hb)

theorem nodup_firsts (name : α → String) (earlier as : List α) :
    ((firsts name earlier as).map name).Nodup := by
  induction as generalizing earlier with
  | nil => exact List.nodup_nil
  | cons a as ih =>
    cases found : earlier.find? fun b => name b == name a with
    | some b =>
      rw [firsts_cons_of_some found]
      exact ih _
    | none =>
      rw [firsts_cons_of_none found, List.map_cons, List.nodup_cons]
      refine ⟨fun again => ?_, ih _⟩
      obtain ⟨b, hb, same⟩ := List.mem_map.1 again
      exact fresh_of_mem_firsts hb a (List.mem_append_right _ (.head _)) same.symm

/-- Together with earlier ones the first ones have distinct names if the earlier ones do. -/
theorem nodup_append_firsts_iff (name : α → String) (earlier as : List α) :
    ((earlier ++ firsts name earlier as).map name).Nodup ↔ (earlier.map name).Nodup := by
  rw [List.map_append, List.nodup_append]
  refine ⟨fun h => h.1, fun h => ⟨h, nodup_firsts name earlier as, ?_⟩⟩
  intro _ hearlier _ hfirst
  obtain ⟨b, hb, rfl⟩ := List.mem_map.1 hearlier
  obtain ⟨a, ha, rfl⟩ := List.mem_map.1 hfirst
  exact fresh_of_mem_firsts ha b hb

/-- The first declaration of a name stands for all later ones: to look among those that were kept is
to look among all. -/
theorem find?_append_kept {kept before : List α} (found : before.find? (fun b => name b == name a) =
      some b) (same : ∀ n, kept.find? (name · == n) = before.find? (name · == n)) (n : String) :
    kept.find? (name · == n) = (before ++ [a]).find? (name · == n) := by
  rw [same, List.find?_append]
  by_cases here : name a = n
  · subst here
    rw [found]
    rfl
  · rw [List.find?_singleton, if_neg (by simpa using here), Option.or_none]

theorem firstOfName_of_same {kept before : List α}
    (same : ∀ n, kept.find? (name · == n) = before.find? (name · == n)) :
    firstOfName name kept as = ⟨kept ++ firsts name before as, repeats name before as⟩ := by
  induction as generalizing kept before with
  | nil => simp [firstOfName, firsts, repeats, inTurn]
  | cons a as ih =>
    rw [firstOfName, same]
    cases found : before.find? fun b => name b == name a with
    | none =>
      have more (n : String) : (kept ++ [a]).find? (name · == n) =
          (before ++ [a]).find? (name · == n) := by
        rw [List.find?_append, List.find?_append, same]
      dsimp only
      rw [ih more, firsts_cons_of_none found, repeats_cons_of_none found, List.append_assoc,
        List.singleton_append]
    | some b =>
      dsimp only
      rw [ih (find?_append_kept found same), firsts_cons_of_some found, repeats_cons_of_some found]

/-- What is kept and what clashes, one declaration after the other, are the first ones and the
repeats. -/
theorem firstOfName_eq (name : α → String) (earlier as : List α) :
    firstOfName name earlier as =
      ⟨earlier ++ firsts name earlier as, repeats name earlier as⟩ :=
  firstOfName_of_same fun _ => rfl

end Names

end Frontend
