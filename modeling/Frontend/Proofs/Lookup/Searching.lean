import Mathlib.Data.List.Flatten
import Mathlib.Data.List.Nodup
import Frontend.Proofs.Registration.Shadowing

/-!
# The modules that a look-up searches

Which modules a look-up searches depends on the qualifier of the name: a plain name is searched for
in every module, an empty qualifier stands for the module that the look-up is made from, and any
other for the first module of that name. Whatever is looked up, it is looked up in these modules in
turn.
-/

namespace Frontend

variable {α β : Type} {f : α → List β} {as bs : List α}

/-- A search of some of the places finds all that a search of all places finds exactly if there is
nothing in the others. -/
theorem flatMap_eq_of_sublist_iff (h : as.Sublist bs) (nodup : bs.Nodup) :
    bs.flatMap f = as.flatMap f ↔ ∀ b ∈ bs, b ∉ as → f b = [] := by
  induction h with
  | slnil => simp
  | @cons as bs b h ih =>
    obtain ⟨hb, nodup⟩ := List.nodup_cons.1 nodup
    have left_out : b ∉ as := fun hmem => hb (h.subset hmem)
    rw [List.flatMap_cons]
    constructor
    · intro heq
      -- what is found in the other places makes up the whole length already
      have hle := (h.flatMap f).length_le
      have hlength := congrArg List.length heq
      rw [List.length_append] at hlength
      have empty : f b = [] := List.length_eq_zero_iff.1 (by omega)
      rw [empty, List.nil_append] at heq
      intro c hc hnot
      rcases List.mem_cons.1 hc with rfl | hc
      · exact empty
      · exact (ih nodup).1 heq c hc hnot
    · intro hall
      rw [hall b List.mem_cons_self left_out, List.nil_append]
      exact (ih nodup).2 fun c hc => hall c (List.mem_cons_of_mem _ hc)
  | @cons_cons as bs b h ih =>
    obtain ⟨hb, nodup⟩ := List.nodup_cons.1 nodup
    rw [List.flatMap_cons, List.flatMap_cons, List.append_right_inj, ih nodup]
    constructor
    · intro hall c hc hnot
      rw [List.mem_cons, not_or] at hnot
      exact hall c ((List.mem_cons.1 hc).resolve_left hnot.1) hnot.2
    · intro hall c hc hnot
      apply hall c (List.mem_cons_of_mem _ hc)
      rw [List.mem_cons, not_or]
      exact ⟨fun same => hb (same ▸ hc), hnot⟩

namespace Store

variable {s : Store} {library : Library} {context : Option ModuleId} {name : String}
  {m : ModuleId}

def searched (s : Store) (library : Library) (context : Option ModuleId) (name : String) :
    List ModuleId :=
  match (splitName name).1 with
  | none => library
  | some qualifier =>
    match context with
    | some c => if qualifier.isEmpty then [c] else (s.findModule? library qualifier).toList
    | none => (s.findModule? library qualifier).toList

/-- A look-up asks the modules that it searches for the plain name. -/
theorem lookupIn_eq_flatMap (s : Store) (library : Library) (context : Option ModuleId)
    (name : String) (find : Module → String → List α) :
    s.lookupIn library context name find =
      (s.searched library context name).flatMap fun m => find (s.module m) (splitName name).2 := by
  have first (qualifier plain : String) :
      ((s.findModule? library qualifier).map fun m => find (s.module m) plain).getD [] =
        (s.findModule? library qualifier).toList.flatMap fun m => find (s.module m) plain := by
    cases s.findModule? library qualifier <;> simp
  unfold lookupIn searched
  cases splitName name with
  | mk qualifier? plain =>
    cases qualifier? with
    | none => rfl
    | some qualifier =>
      cases context with
      | none => exact first qualifier plain
      | some c =>
        by_cases empty : qualifier.isEmpty = true
        · simp [empty]
        · simp only [empty]
          exact first qualifier plain

theorem searched_of_plain (h : ':' ∉ name.toList) : s.searched library context name = library := by
  rw [searched, splitName_of_plain h]

theorem module_of_findModule? {qualifier : String}
    (h : s.findModule? library qualifier = some m) :
    m ∈ library ∧ (s.module m).name = qualifier := by
  refine ⟨List.mem_of_find?_eq_some h, ?_⟩
  have := List.find?_some h
  exact beq_iff_eq.1 this

/-- Only modules of the library are searched, and the one that the look-up is made from. -/
theorem mem_library_of_searched (h : m ∈ s.searched library context name) :
    m ∈ library ∨ context = some m := by
  unfold searched at h
  split at h
  · exact .inl h
  · split at h
    · split at h
      · rw [List.mem_singleton.1 h]
        exact .inr rfl
      · exact .inl (module_of_findModule? (Option.mem_toList.1 h)).1
    · exact .inl (module_of_findModule? (Option.mem_toList.1 h)).1

/-- Where the names of the modules are distinct, each module is the first one of its name. -/
theorem findModule?_of_distinct (distinct : (library.map fun m => (s.module m).name).Nodup)
    (hm : m ∈ library) : s.findModule? library (s.module m).name = some m := by
  have found : (s.findModule? library (s.module m).name).isSome = true := by
    rw [findModule?, List.find?_isSome]
    exact ⟨m, hm, beq_self_eq_true _⟩
  obtain ⟨first, hfirst⟩ := Option.isSome_iff_exists.1 found
  obtain ⟨hmem, hname⟩ := module_of_findModule? hfirst
  rw [hfirst, List.inj_on_of_nodup_map distinct hmem hm hname]

end Store

end Frontend
