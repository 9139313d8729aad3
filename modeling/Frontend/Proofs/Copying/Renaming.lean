import Frontend.Proofs.Copying.Mentions

/-!
# Mentions of a copy

A copy declares fresh variables, one by one, and names the freshest copy of a variable that has been
declared by then. It is self-contained exactly if the original names no variable of its own before
it declares it.
-/

namespace Frontend

/-- Which variables have been copied, the most recent one first, and the number of the next copy. -/
structure Renaming where
  pairs : List (VarId × VarId)
  next : Nat

namespace Renaming

def rename (r : Renaming) (id : VarId) : VarId := (r.pairs.lookup id).getD id

def copy (r : Renaming) : Mention → Mention
  | .declares _ => .declares ⟨r.next⟩
  | .names id => .names (r.rename id)

/-- Declared variables are copied from now on. -/
def step (r : Renaming) : Mention → Renaming
  | .declares id => ⟨(id, ⟨r.next⟩) :: r.pairs, r.next + 1⟩
  | .names _ => r

def after (r : Renaming) (ms : List Mention) : Renaming := ms.foldl step r

def copies (r : Renaming) : List Mention → List Mention
  | [] => []
  | m :: ms => r.copy m :: (r.step m).copies ms

variable {r : Renaming} {ms ms' : List Mention} {m m' : Mention} {id : VarId} {n : Nat}

theorem after_append (r : Renaming) (ms ms' : List Mention) :
    r.after (ms ++ ms') = (r.after ms).after ms' := List.foldl_append

theorem copies_append (r : Renaming) (ms ms' : List Mention) :
    r.copies (ms ++ ms') = r.copies ms ++ (r.after ms).copies ms' := by
  induction ms generalizing r with
  | nil => rfl
  | cons m ms ih =>
    rw [List.cons_append, copies, copies, ih]
    rfl

theorem next_le_after (r : Renaming) (ms : List Mention) : r.next ≤ (r.after ms).next := by
  induction ms generalizing r with
  | nil => exact Nat.le_refl _
  | cons m ms ih =>
    have hstep : r.next ≤ (r.step m).next := by
      cases m with
      | declares => exact Nat.le_succ _
      | names => exact Nat.le_refl _
    exact Nat.le_trans hstep (ih _)

/-- Copies are new and get their numbers in turn. -/
theorem bounds_of_declares (h : .declares id ∈ r.copies ms) :
    r.next ≤ id.index ∧ id.index < (r.after ms).next := by
  induction ms generalizing r with
  | nil => cases h
  | cons m ms ih =>
    have hafter : r.after (m :: ms) = (r.step m).after ms := rfl
    rw [hafter]
    rcases List.mem_cons.1 h with h | h
    · cases m with
      | declares other =>
        cases h
        have := next_le_after (r.step (.declares other)) ms
        exact ⟨Nat.le_refl _, this⟩
      | names => cases h
    · obtain ⟨hle, hlt⟩ := ih h
      cases m with
      | declares => exact ⟨Nat.le_of_succ_le hle, hlt⟩
      | names => exact ⟨hle, hlt⟩

/-- Each mention stands over its copy. -/
theorem mem_zip_copies : (m, m') ∈ ms.zip (r.copies ms) ↔
    ∃ before after, ms = before ++ m :: after ∧ m' = (r.after before).copy m := by
  induction ms generalizing r with
  | nil => simp
  | cons first ms ih =>
    rw [copies, List.zip_cons_cons, List.mem_cons, ih]
    constructor
    · rintro (h | ⟨before, after, rfl, rfl⟩)
      · cases h
        exact ⟨[], ms, rfl, rfl⟩
      · exact ⟨first :: before, after, rfl, rfl⟩
    · rintro ⟨before, after, heq, rfl⟩
      cases before with
      | nil =>
        cases heq
        exact .inl rfl
      | cons b before =>
        cases heq
        exact .inr ⟨before, after, rfl, rfl⟩

theorem mem_zip_of_mem_copies (h : m' ∈ r.copies ms) : ∃ m, (m, m') ∈ ms.zip (r.copies ms) := by
  induction ms generalizing r with
  | nil => cases h
  | cons m ms ih =>
    rw [copies, List.zip_cons_cons]
    rcases List.mem_cons.1 h with rfl | h
    · exact ⟨m, .head _⟩
    · obtain ⟨m₁, h₁⟩ := ih h
      exact ⟨m₁, .tail _ h₁⟩

theorem zip_copies_append (r : Renaming) (ms ms' : List Mention) :
    (ms ++ ms').zip (r.copies (ms ++ ms')) =
      ms.zip (r.copies ms) ++ ms'.zip ((r.after ms).copies ms') := by
  induction ms generalizing r with
  | nil => rfl
  | cons m ms ih =>
    rw [List.cons_append, copies, copies, List.zip_cons_cons, List.zip_cons_cons, ih]
    rfl

/-- A variable that has not been declared keeps its name. -/
theorem rename_of_not_declared (h : .declares id ∉ ms) : (r.after ms).rename id = r.rename id := by
  induction ms generalizing r with
  | nil => rfl
  | cons m ms ih =>
    rw [List.mem_cons, not_or] at h
    refine (ih h.2).trans ?_
    cases m with
    | names => rfl
    | declares other =>
      have hne : (id == other) = false := by
        rw [beq_eq_false_iff_ne]
        intro same
        exact h.1 (by rw [same])
      simp only [step, rename, List.lookup_cons, hne]

/-- A variable that has been declared gets the name of one of its copies. -/
theorem rename_of_declared (h : .declares id ∈ ms) :
    (.declares id, .declares ((r.after ms).rename id)) ∈ ms.zip (r.copies ms) := by
  induction ms generalizing r with
  | nil => cases h
  | cons m ms ih =>
    rw [copies, List.zip_cons_cons]
    by_cases hlater : .declares id ∈ ms
    · exact .tail _ (ih hlater)
    · rcases List.mem_cons.1 h with rfl | h
      · have hrename : (r.after (.declares id :: ms)).rename id = ⟨r.next⟩ := by
          refine (rename_of_not_declared (r := r.step (.declares id)) hlater).trans ?_
          simp [step, rename]
        rw [hrename]
        exact .head _
      · exact absurd h hlater

end Renaming

/-- What a copy mentions, set against the original: it names no variable that the original declares,
and where the original names a variable of its own, the copy names a copy of that variable. -/
structure SelfContained (ms ms' : List Mention) : Prop where
  detached : ∀ id, .names id ∈ ms' → .declares id ∉ ms
  follows : ∀ id m, (.names id, m) ∈ ms.zip ms' → .declares id ∈ ms →
    ∃ copy, m = .names copy ∧ (.declares id, .declares copy) ∈ ms.zip ms'

/-- A variable that is declared anywhere is declared before it is named. -/
def DeclaredFirst (ms : List Mention) : Prop :=
  ∀ id before after, ms = before ++ .names id :: after → .declares id ∈ ms → .declares id ∈ before

/-- A copy is self-contained exactly if no name comes before its declaration. -/
theorem Renaming.selfContained_iff {ms : List Mention} {n : Nat}
    (alive : ∀ id, .declares id ∈ ms → id.index < n) :
    SelfContained ms ((Renaming.mk [] n).copies ms) ↔ DeclaredFirst ms := by
  have rename_self (id : VarId) : (Renaming.mk [] n).rename id = id := rfl
  constructor
  · intro h id before after heq hd
    by_contra hfirst
    have hmem : (.names id, .names id) ∈ ms.zip ((Renaming.mk [] n).copies ms) := by
      refine mem_zip_copies.2 ⟨before, after, heq, ?_⟩
      rw [copy, rename_of_not_declared hfirst, rename_self]
    exact h.detached id (List.of_mem_zip hmem).2 hd
  · intro h
    have follows (id : VarId) (m : Mention)
        (hm : (.names id, m) ∈ ms.zip ((Renaming.mk [] n).copies ms)) (hd : .declares id ∈ ms) :
        ∃ copy, m = .names copy ∧
          (.declares id, .declares copy) ∈ ms.zip ((Renaming.mk [] n).copies ms) := by
      obtain ⟨before, after, rfl, rfl⟩ := mem_zip_copies.1 hm
      refine ⟨_, rfl, ?_⟩
      rw [zip_copies_append]
      exact List.mem_append_left _ (rename_of_declared (h id before after rfl hd))
    refine ⟨fun id hid hd => ?_, follows⟩
    obtain ⟨m, hm⟩ := mem_zip_of_mem_copies hid
    obtain ⟨before, after, heq, hcopy⟩ := mem_zip_copies.1 hm
    cases m with
    | declares => cases hcopy
    | names v =>
      by_cases hv : .declares v ∈ ms
      · obtain ⟨fresh, hfresh, hpair⟩ := follows v _ hm hv
        cases hfresh
        have hnew := (bounds_of_declares (List.of_mem_zip hpair).2).1
        have hold := alive id hd
        exact absurd hold (Nat.not_lt_of_le hnew)
      · have hbefore : .declares v ∉ before := by
          intro hmem
          rw [heq] at hv
          exact hv (List.mem_append_left _ hmem)
        rw [copy, rename_of_not_declared hbefore, rename_self] at hcopy
        cases hcopy
        exact hv hd

end Frontend
