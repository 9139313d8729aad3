import Mathlib.Data.List.Forall2
import Frontend.Expr.Statements

/-!
# Blocks inlined into the statements around them

A block that may be inlined and has no `finally` section dissolves: its statements take its place,
flattened in turn. Every other statement stays as it is. The statements that stay are found at
positions, paths of indices through the blocks that dissolve around them; a flattening lists them by
position, each once.
-/

namespace Frontend

namespace Expr

def Dissolves (e : Expr) (list : List Expr) : Prop :=
  ∃ info, e.node = .block info list [] ∧ info.isCollapseable = true

def Stays (e : Expr) : Prop := ∀ list, ¬ e.Dissolves list

/-- `flat` is what becomes of the statements when all blocks that dissolve do. -/
inductive Flattens : List Expr → List Expr → Prop
  | nil : Flattens [] []
  | stays {e : Expr} {es flat : List Expr} (he : e.Stays) (hes : Flattens es flat) :
      Flattens (e :: es) (e :: flat)
  | dissolves {e : Expr} {list inner es flat : List Expr} (he : e.Dissolves list)
      (hinner : Flattens list inner) (hes : Flattens es flat) :
      Flattens (e :: es) (inner ++ flat)

/-- The statement `c` stays, at a position in the statements or in a block that dissolves. -/
inductive StaysAt : List Expr → List Nat → Expr → Prop
  | here {es : List Expr} {i : Nat} {c : Expr} (hi : es[i]? = some c) (hc : c.Stays) :
      StaysAt es [i] c
  | inside {es list : List Expr} {i : Nat} {e c : Expr} {path : List Nat} (hi : es[i]? = some e)
      (he : e.Dissolves list) (hc : StaysAt list path c) : StaysAt es (i :: path) c

/-- The statements of `flat` are those that stay, each once and in the order of their positions. -/
def KeptInOrder (es flat : List Expr) : Prop :=
  ∃ paths : List (List Nat), paths.Pairwise (· < ·) ∧
    (∀ path, path ∈ paths ↔ ∃ c, StaysAt es path c) ∧ List.Forall₂ (StaysAt es) paths flat

/-- `flat` is the flattening of the statements: none of it dissolves, none that stays is lost, added
or moved, and there is no other. -/
structure Flattening (es flat : List Expr) : Prop where
  flattens : Flattens es flat
  unique : ∀ other, Flattens es other → other = flat
  keptInOrder : KeptInOrder es flat
  all_stay : ∀ c ∈ flat, c.Stays

section Dissolving

variable {e : Expr} {list : List Expr}

theorem Dissolves.unique {list' : List Expr} (h : e.Dissolves list) (h' : e.Dissolves list') :
    list' = list := by
  obtain ⟨info, hn, -⟩ := h
  obtain ⟨info', hn', -⟩ := h'
  rw [hn] at hn'
  cases hn'
  rfl

theorem stays_or_dissolves (e : Expr) : e.Stays ∨ ∃ list, e.Dissolves list :=
  or_iff_not_imp_left.2 not_forall_not.1

theorem isInlineable_iff : e.isInlineable = true ↔ ∃ list, e.Dissolves list := by
  constructor
  · intro h
    unfold isInlineable at h
    split at h
    · rename_i info list hn
      exact ⟨list, info, hn, h⟩
    · cases h
  · rintro ⟨list, info, hn, h⟩
    rw [isInlineable, hn]
    exact h

theorem stays_iff : e.Stays ↔ e.isInlineable = false := by
  rw [← Bool.not_eq_true, isInlineable_iff, Stays, not_exists]

theorem not_any_isInlineable (h : ∀ c ∈ list, c.Stays) : list.any isInlineable = false := by
  apply List.any_eq_false.2
  intro c hc
  rw [stays_iff.1 (h c hc)]
  exact Bool.false_ne_true

theorem Stays.inlined (h : e.Stays) : inlined e = [e] := by
  unfold Expr.inlined
  split
  · rename_i span type flags info list
    exact if_neg fun on => h list ⟨info, rfl, on⟩
  · rfl

theorem Dissolves.inlined (h : e.Dissolves list) : inlined e = inlineAll list := by
  obtain ⟨span, type, flags, node⟩ := e
  obtain ⟨info, hn, on⟩ := h
  cases hn
  exact if_pos on

theorem Stays.collapseOne (h : e.Stays) (result : Array Expr) :
    collapseOne result e = (false, result.push e) := by
  unfold Expr.collapseOne
  split
  · rename_i span type flags info list
    exact if_neg fun on => h list ⟨info, rfl, on⟩
  · rfl

theorem Dissolves.collapseOne (h : e.Dissolves list) (result : Array Expr) :
    collapseOne result e = (true, (collapseInto result list).2) := by
  obtain ⟨span, type, flags, node⟩ := e
  obtain ⟨info, hn, on⟩ := h
  cases hn
  exact if_pos on

end Dissolving

section Lists

variable {es flat : List Expr}

-- The recursion is on the statement, whose own statements come before those behind it.
mutual

theorem flattens_inlined : ∀ (e : Expr) {es flat : List Expr}, Flattens es flat →
    Flattens (e :: es) (inlined e ++ flat)
  | ⟨span, type, flags, node⟩, es, flat, hes => by
    rcases stays_or_dissolves ⟨span, type, flags, node⟩ with h | ⟨list, info, hn, on⟩
    · rw [h.inlined]
      exact .stays h hes
    · cases hn
      have hinner : Flattens list (inlineAll list) := flattens_inlineAll list
      rw [Dissolves.inlined ⟨info, rfl, on⟩]
      exact .dissolves ⟨info, rfl, on⟩ hinner hes

theorem flattens_inlineAll : ∀ es : List Expr, Flattens es (inlineAll es)
  | [] => .nil
  | e :: es => flattens_inlined e (flattens_inlineAll es)

end

namespace Flattens

theorem eq_inlineAll (h : Flattens es flat) : flat = inlineAll es := by
  induction h with
  | nil => rfl
  | stays he _ ih => rw [inlineAll, he.inlined, ih, List.singleton_append]
  | dissolves he _ _ ihInner ih => rw [inlineAll, he.inlined, ihInner, ih]

theorem all_stay (h : Flattens es flat) : ∀ c ∈ flat, c.Stays := by
  induction h with
  | nil => exact fun c hc => by cases hc
  | stays he _ ih => exact List.forall_mem_cons.2 ⟨he, ih⟩
  | dissolves _ _ _ ihInner ih => exact List.forall_mem_append.2 ⟨ihInner, ih⟩

theorem of_all_stay (h : ∀ c ∈ es, c.Stays) : Flattens es es := by
  induction es with
  | nil => exact .nil
  | cons e es ih =>
    obtain ⟨he, hes⟩ := List.forall_mem_cons.1 h
    exact .stays he (ih hes)

/-- The loop that collapses puts the flattening behind what is there. -/
theorem collapseInto (h : Flattens es flat) (result : Array Expr) :
    collapseInto result es = (es.any isInlineable, result ++ flat.toArray) := by
  induction h generalizing result with
  | nil => simp [Expr.collapseInto]
  | stays he _ ih => simp [Expr.collapseInto, he.collapseOne, stays_iff.1 he, ih]
  | dissolves he _ _ ihInner ih =>
    have on := isInlineable_iff.2 ⟨_, he⟩
    simp [Expr.collapseInto, he.collapseOne, on, ihInner, ih]

end Flattens

end Lists

section Positions

variable {e c : Expr} {list inner es flat : List Expr} {path path' : List Nat}

abbrev later (path : List Nat) : List Nat := path.modifyHead (· + 1)

theorem later_lt_later (h : path < path') : later path < later path' := by
  cases path with
  | nil =>
    cases path' with
    | nil => cases h
    | cons j path' => exact List.nil_lt_cons _ _
  | cons i path =>
    cases path' with
    | nil => cases h
    | cons j path' =>
      apply List.cons_lt_cons_iff.2
      exact (List.cons_lt_cons_iff.1 h).imp Nat.succ_lt_succ (And.imp_left (congrArg (· + 1)))

/-- What stays at the first statement is that one, or it stays in the block that dissolves there. -/
theorem staysAt_first : StaysAt (e :: es) (0 :: path) c ↔
    e.Stays ∧ path = [] ∧ c = e ∨ ∃ list, e.Dissolves list ∧ StaysAt list path c := by
  constructor
  · intro h
    cases h with
    | here hi hc =>
      cases hi
      exact .inl ⟨hc, rfl, rfl⟩
    | inside hi he hc =>
      cases hi
      exact .inr ⟨_, he, hc⟩
  · rintro (⟨he, rfl, rfl⟩ | ⟨list, he, hc⟩)
    · exact .here rfl he
    · exact .inside rfl he hc

theorem staysAt_later {i : Nat} : StaysAt (e :: es) ((i + 1) :: path) c ↔
    StaysAt es (i :: path) c := by
  constructor <;> intro h <;> cases h with
  | here hi hc => exact .here hi hc
  | inside hi he hc => exact .inside hi he hc

theorem StaysAt.later (h : StaysAt es path c) : StaysAt (e :: es) (later path) c := by
  cases path with
  | nil => cases h
  | cons i path => exact staysAt_later.2 h

theorem StaysAt.first_lt_later (h : StaysAt es path c) (path' : List Nat) :
    0 :: path' < Expr.later path := by
  cases path with
  | nil => cases h
  | cons i path => exact List.cons_lt_cons_iff.2 (.inl i.succ_pos)

namespace KeptInOrder

theorem nil : KeptInOrder [] [] := by
  have none (path : List Nat) : ¬ ∃ c, StaysAt [] path c := by
    rintro ⟨c, hc⟩
    cases hc with
    | here hi => cases hi
    | inside hi => cases hi
  exact ⟨[], .nil, fun path => iff_of_false List.not_mem_nil (none path), .nil⟩

/-- Statements kept in order come behind those that the first statement leaves. -/
theorem cons {front : List (List Nat)} (hlt : front.Pairwise (· < ·))
    (hmem : ∀ path, path ∈ front ↔ ∃ c, StaysAt (e :: es) (0 :: path) c)
    (hfront : List.Forall₂ (fun path => StaysAt (e :: es) (0 :: path)) front inner)
    (h : KeptInOrder es flat) : KeptInOrder (e :: es) (inner ++ flat) := by
  obtain ⟨paths, hlt', hmem', hpaths⟩ := h
  refine ⟨front.map (0 :: ·) ++ paths.map later, ?_, fun path => ?_, ?_⟩
  · refine List.pairwise_append.2 ⟨?_, ?_, ?_⟩
    · exact List.pairwise_map.2 (hlt.imp fun h => List.cons_lt_cons_iff.2 (.inr ⟨rfl, h⟩))
    · exact List.pairwise_map.2 (hlt'.imp later_lt_later)
    · intro path hpath path' hpath'
      obtain ⟨rest, -, rfl⟩ := List.mem_map.1 hpath
      obtain ⟨rest', hrest', rfl⟩ := List.mem_map.1 hpath'
      obtain ⟨c, hc⟩ := (hmem' rest').1 hrest'
      exact hc.first_lt_later rest
  · rw [List.mem_append, List.mem_map, List.mem_map]
    constructor
    · rintro (⟨rest, hrest, rfl⟩ | ⟨rest, hrest, rfl⟩)
      · exact (hmem rest).1 hrest
      · obtain ⟨c, hc⟩ := (hmem' rest).1 hrest
        exact ⟨c, hc.later⟩
    · rintro ⟨c, hc⟩
      match path, hc with
      | 0 :: rest, hc => exact .inl ⟨rest, (hmem rest).2 ⟨c, hc⟩, rfl⟩
      | (i + 1) :: rest, hc =>
        have hes : StaysAt es (i :: rest) c := staysAt_later.1 hc
        exact .inr ⟨i :: rest, (hmem' _).2 ⟨c, hes⟩, rfl⟩
  · apply List.rel_append
    · exact List.forall₂_map_left_iff.2 hfront
    · exact List.forall₂_map_left_iff.2 (hpaths.imp fun _ _ => StaysAt.later)

theorem stays (he : e.Stays) (h : KeptInOrder es flat) : KeptInOrder (e :: es) (e :: flat) := by
  have first {path : List Nat} {c : Expr} :
      StaysAt (e :: es) (0 :: path) c ↔ path = [] ∧ c = e := by
    rw [staysAt_first]
    constructor
    · rintro (⟨-, hc⟩ | ⟨list, hlist, -⟩)
      · exact hc
      · exact (he list hlist).elim
    · exact fun hc => .inl ⟨he, hc⟩
  refine h.cons (List.pairwise_singleton _ []) (fun path => ?_) (.cons (first.2 ⟨rfl, rfl⟩) .nil)
  simp only [List.mem_singleton, first, exists_and_left, exists_eq, and_true]

theorem dissolves (he : e.Dissolves list) (hinner : KeptInOrder list inner)
    (h : KeptInOrder es flat) : KeptInOrder (e :: es) (inner ++ flat) := by
  obtain ⟨paths, hlt, hmem, hpaths⟩ := hinner
  have first {path : List Nat} {c : Expr} :
      StaysAt (e :: es) (0 :: path) c ↔ StaysAt list path c := by
    rw [staysAt_first]
    constructor
    · rintro (⟨hstays, -⟩ | ⟨list', he', hc⟩)
      · exact (hstays list he).elim
      · rwa [← he.unique he']
    · exact fun hc => .inr ⟨list, he, hc⟩
  refine h.cons hlt (fun path => ?_) (hpaths.imp fun _ _ => first.2)
  simp only [hmem, first]

end KeptInOrder

theorem Flattens.keptInOrder (h : Flattens es flat) : KeptInOrder es flat := by
  induction h with
  | nil => exact .nil
  | stays he _ ih => exact .stays he ih
  | dissolves he _ _ ihInner ih => exact .dissolves he ihInner ih

end Positions

section Collapsing

theorem flattening_inlineAll (es : List Expr) : Flattening es (inlineAll es) where
  flattens := flattens_inlineAll es
  unique _ h := h.eq_inlineAll
  keptInOrder := (flattens_inlineAll es).keptInOrder
  all_stay := (flattens_inlineAll es).all_stay

theorem collapse_of_flattens {list flat finalList flatFinal : List Expr} (h : Flattens list flat)
    (hFinal : Flattens finalList flatFinal) (span : Span) (type : Option Ty) (flags : UInt32)
    (info : BlockInfo) :
    collapse? ⟨span, type, flags, .block info list finalList⟩ =
      some (list.any isInlineable || finalList.any isInlineable,
        ⟨span, type, flags, .block info flat flatFinal⟩) := by
  simp [collapse?, h.collapseInto, hFinal.collapseInto]

/-- To collapse a block replaces both statement lists by their flattenings, nothing else. It tells
whether a block dissolved, and there is none left to dissolve the second time. -/
theorem collapse_flattens (span : Span) (type : Option Ty) (flags : UInt32) (info : BlockInfo)
    (list finalList : List Expr) :
    ∃ any flat flatFinal, Flattening list flat ∧ Flattening finalList flatFinal ∧
      collapse? ⟨span, type, flags, .block info list finalList⟩ =
        some (any, ⟨span, type, flags, .block info flat flatFinal⟩) ∧
      (any = true ↔ ∃ e ∈ list ++ finalList, ∃ inner, e.Dissolves inner) ∧
      collapse? ⟨span, type, flags, .block info flat flatFinal⟩ =
        some (false, ⟨span, type, flags, .block info flat flatFinal⟩) := by
  have hlist := flattening_inlineAll list
  have hfinal := flattening_inlineAll finalList
  refine ⟨_, _, _, hlist, hfinal, collapse_of_flattens hlist.flattens hfinal.flattens _ _ _ _,
    ?_, ?_⟩
  · simp only [← isInlineable_iff, ← List.any_append, List.any_eq_true]
  · have again := collapse_of_flattens (.of_all_stay hlist.all_stay) (.of_all_stay hfinal.all_stay)
      span type flags info
    rwa [not_any_isInlineable hlist.all_stay, not_any_isInlineable hfinal.all_stay,
      Bool.or_false] at again

end Collapsing

end Expr

end Frontend
