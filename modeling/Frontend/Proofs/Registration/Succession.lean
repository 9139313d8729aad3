import Mathlib.Data.List.Nodup
import Frontend.Proofs.Registration.Stamping
import Frontend.Proofs.Traversal.Module

/-!
# Declarations in the places of others

A map files declarations under their names, and a list says which ones there are. When declarations
are replaced one after the other, each under its own name, map and list stay together as long as no
replacement bears the name of a declaration that is there or is still to be visited.
-/

namespace Frontend

variable {α ς : Type}

/-- The name of a declaration with the module that it is stamped with; a declaration that is gone
has none. -/
abbrev Mark := Option (String × Option String)

/-- The map files exactly the declarations of the list, each of them once and under its own name. -/
structure Registered (map : NameMap α) (mark : α → Mark) (ids : List α) : Prop where
  filed : ∀ a ∈ ids, ∃ name stamp, mark a = some (name, stamp) ∧ map.find? name = some a
  listed : ∀ name a, map.find? name = some a → a ∈ ids ∧ ∃ stamp, mark a = some (name, stamp)
  nodup : ids.Nodup

/-- What became of a declaration: its name when the visit came to it, the declaration in its place
afterwards, and the name and the stamp of that one. -/
structure Succession (α : Type) where
  old : α
  new : α
  oldName : String
  newName : String
  stamp : Option String

def Succession.of (mark : α → Mark) (old new : α) : Succession α where
  old
  new
  oldName := ((mark old).map (·.1)).getD ""
  newName := ((mark new).map (·.1)).getD ""
  stamp := (mark new).bind (·.2)

/-- A change of map and marks that puts one declaration in the place of another. Marks of
declarations that exist stay as they are. -/
structure Succeeds (map map' : NameMap α) (mark mark' : α → Mark) (x : Succession α) : Prop where
  kept : ∀ a w, mark a = some w → mark' a = some w
  old : ∀ w, mark x.old = some w → w.1 = x.oldName
  new : (mark x.old).isSome = true → mark' x.new = some (x.newName, x.stamp)
  map : x.new = x.old ∧ map' = map ∨ map' = (map.erase x.oldName).insert x.newName x.new

/-- No replacement has the name of an earlier one, or the name of a declaration that is visited
later. -/
def NoClash (xs : List (Succession α)) : Prop :=
  xs.Pairwise fun x y => x.newName ≠ y.newName ∧ x.newName ≠ y.oldName

namespace Registered

variable {map map' : NameMap α} {mark mark' : α → Mark} {ids front back : List α} {a b : α}
  {x : Succession α} {xs : List (Succession α)}

theorem congr (h : Registered map mark ids) (hmark : ∀ a ∈ ids, mark' a = mark a) :
    Registered map mark' ids where
  filed a ha := by
    rw [hmark a ha]
    exact h.filed a ha
  listed name a ha := by
    rw [hmark a (h.listed name a ha).1]
    exact h.listed name a ha
  nodup := h.nodup

/-- Declarations that are registered exist, so a change that keeps what exists keeps their marks. -/
theorem mark_eq (h : Registered map mark ids) (hkept : ∀ a w, mark a = some w → mark' a = some w)
    (a : α) (ha : a ∈ ids) : mark' a = mark a := by
  obtain ⟨name, stamp, hmark, -⟩ := h.filed a ha
  rw [hmark, hkept a _ hmark]

/-- A map whose entries bear their names registers its values. -/
theorem of_find? (h : ∀ name a, map.find? name = some a → ∃ stamp, mark a = some (name, stamp)) :
    Registered map mark map.values where
  filed a ha := by
    obtain ⟨name, hname⟩ := NameMap.mem_values.1 ha
    obtain ⟨stamp, hmark⟩ := h name a hname
    exact ⟨name, stamp, hmark, hname⟩
  listed name a ha := ⟨NameMap.mem_values.2 ⟨name, ha⟩, h name a ha⟩
  nodup := by
    refine List.pairwise_map.2 (map.ascending.imp_of_mem fun {e f} he hf hlt same => ?_)
    obtain ⟨_, hme⟩ := h e.1 e.2 (NameMap.mem_toList.1 he)
    obtain ⟨_, hmf⟩ := h f.1 f.2 (NameMap.mem_toList.1 hf)
    rw [← same, hme, Option.some.injEq, Prod.mk.injEq] at hmf
    exact String.lt_irrefl _ (hmf.1 ▸ hlt)

/-- A declaration is added under a free name, and gets another stamp. -/
theorem insert {name : String} {stamp stamp' : Option String} (h : Registered map mark ids)
    (hfree : map.find? name = none) (hold : mark a = some (name, stamp))
    (hnew : mark' a = some (name, stamp')) (hmark : ∀ b, b ≠ a → mark' b = mark b) :
    Registered (map.insert name a) mark' (ids ++ [a]) := by
  have hnotMem : a ∉ ids := by
    intro ha
    obtain ⟨_, _, hkey, hfind⟩ := h.filed a ha
    rw [hold] at hkey
    cases hkey
    rw [hfree] at hfind
    cases hfind
  have hkept (b : α) (hb : b ∈ ids) : mark' b = mark b := hmark b fun same => hnotMem (same ▸ hb)
  refine ⟨fun b hb => ?_, fun key b hb => ?_, ?_⟩
  · rcases List.mem_append.1 hb with hb | hb
    · obtain ⟨key, stamp', hkey, hfind⟩ := h.filed b hb
      refine ⟨key, stamp', by rw [hkept b hb, hkey], ?_⟩
      rwa [NameMap.find?_insert_of_ne _ _ fun same => by rw [same, hfree] at hfind; cases hfind]
    · rw [List.mem_singleton.1 hb]
      exact ⟨name, _, hnew, NameMap.find?_insert_self _ _ _⟩
  · by_cases same : key = name
    · rw [same, NameMap.find?_insert_self] at hb
      cases hb
      exact ⟨by simp, _, by rw [hnew, same]⟩
    · rw [NameMap.find?_insert_of_ne _ _ same] at hb
      obtain ⟨hmem, stamp', hkey⟩ := h.listed key b hb
      exact ⟨List.mem_append_left _ hmem, stamp', by rw [hkept b hmem, hkey]⟩
  · rw [List.nodup_append]
    refine ⟨h.nodup, List.pairwise_singleton _ a, fun b hb c hc same => hnotMem ?_⟩
    rw [← List.mem_singleton.1 hc, ← same]
    exact hb

/-- One declaration takes the place of another. -/
theorem succeed (h : Registered map mark (front ++ x.old :: back))
    (hx : Succeeds map map' mark mark' x)
    (hclash : ∀ a ∈ front ++ back, ∀ stamp, mark a ≠ some (x.newName, stamp)) :
    Registered map' mark' (front ++ x.new :: back) := by
  have hkept := h.mark_eq hx.kept
  obtain ⟨oldName, stamp, hold, hfind⟩ := h.filed x.old (by simp)
  obtain rfl : oldName = x.oldName := hx.old _ hold
  obtain ⟨hsame, hmap⟩ | hmap := hx.map
  · rw [hsame, hmap]
    exact h.congr hkept
  · have hnodup := List.nodup_middle.1 h.nodup
    obtain ⟨hold_notMem, hrest⟩ := List.nodup_cons.1 hnodup
    have hnew : mark' x.new = some (x.newName, x.stamp) := hx.new (by rw [hold]; rfl)
    have hname {a : α} (ha : a ∈ front ++ back) {key : String} {st : Option String}
        (hkey : mark a = some (key, st)) : key ≠ x.newName :=
      fun same => hclash a ha st (same ▸ hkey)
    have hmem {a : α} (ha : a ∈ front ++ back) : a ∈ front ++ x.old :: back :=
      List.perm_middle.mem_iff.2 (.tail _ ha)
    have hnew_notMem : x.new ∉ front ++ back := by
      intro hmem'
      rw [hkept _ (hmem hmem')] at hnew
      exact hclash _ hmem' _ hnew
    refine ⟨fun a ha => ?_, fun key a ha => ?_,
      List.nodup_middle.2 (List.nodup_cons.2 ⟨hnew_notMem, hrest⟩)⟩
    · obtain rfl | ha := List.mem_cons.1 (List.perm_middle.mem_iff.1 ha)
      · exact ⟨_, _, hnew, by rw [hmap, NameMap.find?_insert_self]⟩
      · obtain ⟨key, st, hkey, hfind'⟩ := h.filed a (hmem ha)
        refine ⟨key, st, by rw [hkept a (hmem ha), hkey], ?_⟩
        rw [hmap, NameMap.find?_insert_of_ne _ _ (hname ha hkey), NameMap.find?_erase_of_ne, hfind']
        intro same
        rw [same, hfind] at hfind'
        cases hfind'
        exact hold_notMem ha
    · rw [hmap] at ha
      by_cases same : key = x.newName
      · rw [same, NameMap.find?_insert_self] at ha
        cases ha
        exact ⟨by simp, _, by rw [hnew, same]⟩
      · rw [NameMap.find?_insert_of_ne _ _ same] at ha
        have hne : key ≠ x.oldName := by
          rintro rfl
          rw [NameMap.find?_erase_self] at ha
          cases ha
        rw [NameMap.find?_erase_of_ne _ hne] at ha
        obtain ⟨hlisted, st, hkey⟩ := h.listed key a ha
        refine ⟨?_, st, by rw [hkept a hlisted, hkey]⟩
        obtain rfl | ha := List.mem_cons.1 (List.perm_middle.mem_iff.1 hlisted)
        · rw [hold, Option.some.injEq, Prod.mk.injEq] at hkey
          exact absurd hkey.1.symm hne
        · exact List.perm_middle.mem_iff.2 (.tail _ ha)

end Registered

namespace Run

theorem of_mem {F : α → ς → ς → Prop} {as : List α} {st st' : ς} (h : Run F as st st') {a : α}
    (ha : a ∈ as) : ∃ st₁ st₂, F a st₁ st₂ := by
  induction h with
  | nil => cases ha
  | cons hstep _ ih =>
    cases ha with
    | head => exact ⟨_, _, hstep⟩
    | tail _ ha => exact ih ha

/-- A loop that ended has made a step for each element, and what one step keeps holds throughout. -/
theorem of_loop {β : Type} {f : β → PUnit → StateT ς (Except Fault) (ForInStep PUnit)} {I : ς → Prop}
    {F : α → ς → ς → Prop} {key : α → β}
    (hf : ∀ b st r st', I st → (f b ⟨⟩).run st = .ok (r, st') →
      r = .yield ⟨⟩ ∧ I st' ∧ ∃ a, key a = b ∧ F a st st')
    {bs : List β} {st st' : ς} {r : PUnit} (hst : I st)
    (h : (forIn bs PUnit.unit f).run st = .ok (r, st')) :
    I st' ∧ ∃ as, as.map key = bs ∧ Run F as st st' := by
  induction bs generalizing st with
  | nil =>
    cases h
    exact ⟨hst, [], rfl, .nil⟩
  | cons b bs ih =>
    rw [List.forIn_cons] at h
    obtain ⟨r₁, st₁, hstep, hrest⟩ := exists_of_bind h
    obtain ⟨rfl, hst₁, a, rfl, hF⟩ := hf b st r₁ st₁ hst hstep
    obtain ⟨hst', as, rfl, has⟩ := ih hst₁ hrest
    exact ⟨hst', a :: as, rfl, .cons hF has⟩

variable {map : ς → NameMap α} {mark : ς → α → Mark} {F : Succession α → ς → ς → Prop}
  {xs : List (Succession α)} {st st' : ς} {front : List α}

theorem mark_kept (hF : ∀ x st st', F x st st' →
    Succeeds (map st) (map st') (mark st) (mark st') x) (h : Run F xs st st') (a : α)
    (w : String × Option String) (ha : mark st a = some w) : mark st' a = some w :=
  h.keeps (L := fun st st' => ∀ a w, mark st a = some w → mark st' a = some w) (fun _ _ _ h => h)
    (fun h h' a w ha => h' a w (h a w ha)) (fun x _ st st' hx => (hF x st st' hx).kept) a w ha

theorem name_of_old (hF : ∀ x st st', F x st st' →
    Succeeds (map st) (map st') (mark st) (mark st') x) (h : Run F xs st st') :
    ∀ x ∈ xs, ∀ w, mark st x.old = some w → w.1 = x.oldName := by
  induction h with
  | nil => exact fun _ hx => absurd hx List.not_mem_nil
  | cons hstep _ ih =>
    intro x hx w hw
    cases hx with
    | head => exact (hF _ _ _ hstep).old w hw
    | tail _ hx => exact ih x hx w ((hF _ _ _ hstep).kept _ w hw)

/-- Declarations visited one after the other, in states that have a map and marks; those in front
have been visited. -/
theorem registered (front : List α) (hF : ∀ x st st', F x st st' →
    Succeeds (map st) (map st') (mark st) (mark st') x) (h : Run F xs st st')
    (hreg : Registered (map st) (mark st) (front ++ xs.map (·.old)))
    (hfront : ∀ x ∈ xs, ∀ a ∈ front, ∀ stamp, mark st a ≠ some (x.newName, stamp))
    (hclash : NoClash xs) :
    Registered (map st') (mark st') (front ++ xs.map (·.new)) ∧
      ∀ x ∈ xs, mark st' x.new = some (x.newName, x.stamp) := by
  induction h generalizing front with
  | nil => exact ⟨hreg, fun _ hx => absurd hx List.not_mem_nil⟩
  | @cons x xs st st₁ st₂ hstep hs ih =>
    have hx := hF _ _ _ hstep
    obtain ⟨hhead, htail⟩ := List.pairwise_cons.1 hclash
    have hnot : ∀ a ∈ front ++ xs.map (·.old), ∀ stamp, mark st a ≠ some (x.newName, stamp) := by
      intro a ha stamp hmark
      rcases List.mem_append.1 ha with ha | ha
      · exact hfront x (.head _) a ha stamp hmark
      · obtain ⟨y, hy, rfl⟩ := List.mem_map.1 ha
        exact (hhead y hy).2 (name_of_old hF (.cons hstep hs) y (.tail _ hy) _ hmark)
    have hold : (mark st x.old).isSome = true := by
      obtain ⟨_, _, hmark, -⟩ := hreg.filed x.old (by simp)
      rw [hmark]
      rfl
    have hreg₁ : Registered (map st₁) (mark st₁) ((front ++ [x.new]) ++ xs.map (·.old)) := by
      rw [List.append_assoc]
      exact hreg.succeed hx hnot
    have hfront₁ : ∀ y ∈ xs, ∀ a ∈ front ++ [x.new], ∀ stamp,
        mark st₁ a ≠ some (y.newName, stamp) := by
      intro y hy a ha stamp hmark
      rcases List.mem_append.1 ha with ha | ha
      · obtain ⟨_, _, hbefore, -⟩ := hreg.filed a (List.mem_append_left _ ha)
        rw [hx.kept a _ hbefore, ← hbefore] at hmark
        exact hfront y (.tail _ hy) a ha stamp hmark
      · rw [List.mem_singleton.1 ha, hx.new hold, Option.some.injEq, Prod.mk.injEq] at hmark
        exact (hhead y hy).1 hmark.1
    obtain ⟨hregistered, hmarks⟩ := ih _ hreg₁ hfront₁ htail
    refine ⟨by simpa using hregistered, fun y hy => ?_⟩
    cases hy with
    | head => exact hs.mark_kept hF _ _ (hx.new hold)
    | tail _ hy => exact hmarks y hy

/-- No replacement is a declaration that is visited later. -/
theorem later (hF : ∀ x st st', F x st st' →
    Succeeds (map st) (map st') (mark st) (mark st') x) (h : Run F xs st st')
    (hreg : Registered (map st) (mark st) (xs.map (·.old))) (hclash : NoClash xs) :
    xs.Pairwise fun x y => x.new ≠ y.old := by
  have hmarks := (h.registered [] hF hreg (fun _ _ _ h => by cases h) hclash).2
  refine hclash.imp_of_mem fun {x y} hx hy hxy same => hxy.2 ?_
  obtain ⟨name, stamp, hold, -⟩ := hreg.filed y.old (List.mem_map_of_mem hy)
  have hnew : mark st' x.new = some (x.newName, x.stamp) := hmarks x hx
  rw [same, h.mark_kept hF _ _ hold] at hnew
  cases hnew
  exact h.name_of_old hF y hy _ hold

theorem order [DecidableEq α] (front : List α) {order : ς → List α}
    (hF : ∀ x st st', F x st st' →
      order st' = (order st).map fun a => if a = x.old then x.new else a)
    (h : Run F xs st st') (horder : order st = front ++ xs.map (·.old))
    (hnodup : (xs.map (·.old)).Nodup) (hfront : ∀ x ∈ xs, x.old ∉ front)
    (hlater : xs.Pairwise fun x y => x.new ≠ y.old) : order st' = front ++ xs.map (·.new) := by
  induction h generalizing front with
  | nil => exact horder
  | @cons x xs st st₁ st₂ hstep hs ih =>
    obtain ⟨hhead, htail⟩ := List.pairwise_cons.1 hlater
    obtain ⟨hold, hnodup⟩ := List.nodup_cons.1 hnodup
    have keep (l : List α) (hl : x.old ∉ l) :
        (l.map fun a => if a = x.old then x.new else a) = l := by
      refine (List.map_congr_left fun a ha => ?_).trans (List.map_id l)
      exact if_neg fun same : a = x.old => hl (same ▸ ha)
    have horder₁ : order st₁ = (front ++ [x.new]) ++ xs.map (·.old) := by
      rw [hF _ _ _ hstep, horder, List.map_append, List.map_cons, List.map_cons, if_pos rfl,
        keep _ (hfront x (.head _)), keep _ hold, List.append_assoc, List.singleton_append]
    have hfront₁ : ∀ y ∈ xs, y.old ∉ front ++ [x.new] := by
      intro y hy hmem
      rcases List.mem_append.1 hmem with hmem | hmem
      · exact hfront y (.tail _ hy) hmem
      · exact hhead y hy (List.mem_singleton.1 hmem).symm
    simpa using ih _ horder₁ hnodup hfront₁ htail

end Run

end Frontend
