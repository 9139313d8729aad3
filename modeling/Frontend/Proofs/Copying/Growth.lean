import Frontend.Proofs.Copying.Copies

/-!
# What a copy does to the store

The only step of a copy that touches the store is to put the copy of a variable into it. So whatever
leads from before to after each such step leads from the start to the end of a copy: only variables
change, and those that were there stay as they were.
-/

namespace Frontend

variable {s t u : Store} {L : Copying → Copying → Prop} {copy : Expr → CopyM Expr} {c c' : Copying}

structure Growth (L : Copying → Copying → Prop) : Prop where
  refl : ∀ c, L c c
  trans : ∀ {c₁ c₂ c₃}, L c₁ c₂ → L c₂ c₃ → L c₁ c₃
  declare : ∀ {id v fresh c c'}, (CopyM.declare id v).run c = .ok (fresh, c') → L c c'

def HoldsAcross (L : Copying → Copying → Prop) (copy : Expr → CopyM Expr) : Prop :=
  ∀ {e e' : Expr} {c c' : Copying}, (copy e).run c = .ok (e', c') → L c c'

namespace Growth

variable (hL : Growth L)

include hL

theorem item (hcopy : HoldsAcross L copy) {item item' : Item}
    (h : (copyItem copy item).run c = .ok (item', c')) : L c c' := by
  cases item with
  | name id =>
    cases h
    exact hL.refl _
  | child e =>
    obtain ⟨e', he', -⟩ := exists_of_map h
    exact hcopy he'
  | declared id =>
    obtain ⟨fresh, hfresh, -⟩ := exists_of_map h
    obtain ⟨_, _, hget, hrest⟩ := exists_of_bind hfresh
    cases hget
    obtain ⟨init, c₁, hinit, hdeclare⟩ := exists_of_bind hrest
    cases hi : (c.store.var id).init with
    | none =>
      rw [hi] at hinit
      cases hinit
      exact hL.declare hdeclare
    | some i =>
      rw [hi] at hinit
      obtain ⟨i', hi', -⟩ := exists_of_map (g := some) (m := copy i) hinit
      exact hL.trans (hcopy hi') (hL.declare hdeclare)

theorem items (hcopy : HoldsAcross L copy) {items items' : List Item}
    (h : (items.mapM (copyItem copy)).run c = .ok (items', c')) : L c c' := by
  induction items generalizing c items' with
  | nil =>
    cases h
    exact hL.refl _
  | cons item items ih =>
    rw [List.mapM_cons] at h
    obtain ⟨item', c₁, hitem, h⟩ := exists_of_bind h
    obtain ⟨rest, c₂, hitems, hpure⟩ := exists_of_bind h
    cases hpure
    exact hL.trans (hL.item hcopy hitem) (ih hitems)

theorem copyIn (steps : Nat) : HoldsAcross L (copyIn steps) := by
  induction steps with
  | zero =>
    intro e e' c c' h
    cases h
  | succ steps ih =>
    intro e e' c c' h
    obtain ⟨n', _, hnode, hpure⟩ := exists_of_bind h
    cases hpure
    have hitems : (e.node.items.mapM (copyItem (Frontend.copyIn steps))).run c =
        .ok (n'.items, c') := by
      rw [mapM_items, StateT.run_map, hnode]
      rfl
    exact hL.items ih hitems

end Growth

theorem growth_varsOnly : Growth fun c c' => c.store.VarsOnly c'.store where
  refl c := .refl c.store
  trans h h' := h.trans h'
  declare h := by
    cases h
    rfl

namespace Store

theorem Extends.refl (s : Store) : s.Extends s := fun _ hid => ⟨hid, rfl⟩

theorem Extends.trans (h : s.Extends t) (h' : t.Extends u) : s.Extends u := fun id hid =>
  ⟨(h' id (h id hid).1).1, (h' id (h id hid).1).2.trans (h id hid).2⟩

end Store

theorem growth_extends : Growth fun c c' => c.store.Extends c'.store where
  refl c := .refl c.store
  trans h h' := h.trans h'
  declare h := extends_declare (.refl _) h

/-- A copy of a tree is a run that starts with nothing renamed. -/
theorem run_of_copyExpr {e e' : Expr} (h : s.copyExpr e = .ok (e', t)) :
    ∃ c, (copyIn (s.copySteps e.weight) e).run ⟨s, []⟩ = .ok (e', c) ∧ c.store = t := by
  unfold Store.copyExpr at h
  cases hrun : (copyIn (s.copySteps e.weight) e).run ⟨s, []⟩ with
  | error fault =>
    rw [hrun] at h
    cases h
  | ok r =>
    rw [hrun] at h
    cases h
    exact ⟨r.2, rfl, rfl⟩

structure Store.AddsVars (s t : Store) : Prop where
  rest : s.VarsOnly t
  old : s.Extends t

namespace Store.AddsVars

theorem refl (s : Store) : s.AddsVars s := ⟨.refl s, .refl s⟩

theorem trans (h : s.AddsVars t) (h' : t.AddsVars u) : s.AddsVars u :=
  ⟨h.rest.trans h'.rest, h.old.trans h'.old⟩

end Store.AddsVars

theorem addsVars_copyExpr {e e' : Expr} (h : s.copyExpr e = .ok (e', t)) : s.AddsVars t := by
  obtain ⟨c, hrun, rfl⟩ := run_of_copyExpr h
  exact ⟨growth_varsOnly.copyIn _ hrun, growth_extends.copyIn _ hrun⟩

theorem addsVars_copyOption {e e' : Option Expr} (h : s.copyOption e = .ok (e', t)) :
    s.AddsVars t := by
  cases e with
  | none =>
    cases h
    exact .refl s
  | some e =>
    obtain ⟨r, hr, h⟩ := ok_of_bind h
    cases h
    exact addsVars_copyExpr hr

theorem addsVars_copyFields {fs fs' : List Field} (h : s.copyFields fs = .ok (fs', t)) :
    s.AddsVars t := by
  induction fs generalizing s fs' with
  | nil =>
    cases h
    exact .refl _
  | cons f fs ih =>
    obtain ⟨r, hr, h⟩ := ok_of_bind h
    obtain ⟨r', hr', h⟩ := ok_of_bind h
    cases h
    exact (addsVars_copyOption hr).trans (ih hr')

theorem addsVars_deriveStruct {name : String} {parent : StructId} {span : Span} {x : Struct}
    (h : s.deriveStruct name parent span = .ok (x, t)) : s.AddsVars t := by
  obtain ⟨r, hr, h⟩ := ok_of_bind h
  cases h
  exact addsVars_copyFields hr

end Frontend
