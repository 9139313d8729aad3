import Frontend.Proofs.Optimizer.Shrinking
import Frontend.Proofs.Semantics.Leaving

/-!
# What always leaves may leave

A statement that always leaves holds a `return`, a `break`, a `continue` or a call of `panic` at a
place where nothing on the way stops it: only statement lists and branches lead there. So the exits
read off the statement stop the flow. Tidying a block relies on this: where it drops statements, one
that stops the flow stays in front of them, so the block stops the flow as before although single
exits may be gone.
-/

namespace Frontend

/-- A statement list or a branch; neither stops any exit. -/
def Place.InLine (place : Place) : Prop := place = .list ∨ place = .branch

theorem Place.InLine.passes {place : Place} (h : place.InLine) (x : Exit) : place.passes x := by
  rcases h with rfl | rfl
  · rfl
  · rfl

theorem Exits.stopsFlow_iff {a : Exits} :
    a.stopsFlow = true ↔ ∃ x, x ≠ .jumps ∧ a.has x = true := by
  constructor
  · intro h
    simp only [stopsFlow, Bool.or_eq_true] at h
    rcases h with ((h | h) | h) | h
    · exact ⟨.returns, by decide, h⟩
    · exact ⟨.breaks, by decide, h⟩
    · exact ⟨.continues, by decide, h⟩
    · exact ⟨.throws, by decide, h⟩
  · rintro ⟨x, hx, h⟩
    cases x with
    | jumps => exact absurd rfl hx
    | returns | breaks | continues | throws =>
      rw [has] at h
      simp [stopsFlow, h]

namespace Store

variable {s : Store} {e e' : Expr} {es list flat : List Expr} {x : Exit}

theorem Escapes.mono {through through' : Place → Prop} (hsub : ∀ p, through p → through' p)
    (h : s.Escapes through x e) : s.Escapes through' x e := by
  induction h with
  | here h => exact .here h
  | inside hpart hthrough hpasses _ ih => exact .inside hpart (hsub _ hthrough) hpasses ih

/-- What escapes from a statement in a list or from a branch escapes from the statement around. -/
theorem Escapes.inLine {part : Expr} {place : Place} (h : s.Escapes Place.InLine x part)
    (hplace : place.InLine) (hpart : (place, part) ∈ e.node.places) :
    s.Escapes Place.InLine x e :=
  .inside hpart hplace (hplace.passes x) h

-- On a statement and on a statement list at once. Of the two branches of an `if` the first will do.
mutual

theorem escapes_of_alwaysLeaves : (e : Expr) → s.alwaysLeaves e = true →
    ∃ x, x ≠ .jumps ∧ s.Escapes Place.InLine x e
  | ⟨_, _, _, node⟩, h => by
    cases node with
    | ret => exact ⟨.returns, by decide, .here rfl⟩
    | breakLoop => exact ⟨.breaks, by decide, .here rfl⟩
    | continueLoop => exact ⟨.continues, by decide, .here rfl⟩
    | call name args function =>
      have hpanic : s.isBuiltinPanic function = true := h
      exact ⟨.throws, by decide, .here (if_pos hpanic)⟩
    | block info list finalList =>
      rw [alwaysLeaves, nodeLeaves, Bool.and_eq_true] at h
      obtain ⟨c, hc, x, hx, hescapes⟩ := escapes_of_anyLeaves list h.2
      refine ⟨x, hx, hescapes.inLine (.inl rfl) ?_⟩
      exact List.mem_append_left _ (List.mem_map_of_mem hc)
    | ifThenElse cond ifTrue ifFalse isStatic =>
      cases ifFalse with
      | none => cases h
      | some ifFalse =>
        rw [alwaysLeaves, nodeLeaves, Bool.and_eq_true] at h
        obtain ⟨x, hx, hescapes⟩ := escapes_of_alwaysLeaves ifTrue h.1
        exact ⟨x, hx, hescapes.inLine (.inr rfl) (.tail _ (.head _))⟩
    | _ => cases h

theorem escapes_of_anyLeaves : (es : List Expr) → s.anyLeaves es = true →
    ∃ c ∈ es, ∃ x, x ≠ .jumps ∧ s.Escapes Place.InLine x c
  | [], h => by cases h
  | e :: es, h => by
    rw [anyLeaves, Bool.or_eq_true] at h
    rcases h with h | h
    · exact ⟨e, .head _, escapes_of_alwaysLeaves e h⟩
    · obtain ⟨c, hc, hescapes⟩ := escapes_of_anyLeaves es h
      exact ⟨c, .tail _ hc, hescapes⟩

end

/-! ### Tidied blocks -/

theorem listExits_append_has {fs : List Expr} : (s.listExits (es ++ fs)).has x =
    ((s.listExits es).has x || (s.listExits fs).has x) := by
  induction es with
  | nil => simp [listExits]
  | cons e es ih => simp [listExits, ih, Bool.or_assoc]

/-- Flattening keeps the exits: a block that dissolves has those of its statements. -/
theorem listExits_flattens (h : Expr.Flattens list flat) :
    (s.listExits flat).has x = (s.listExits list).has x := by
  induction h with
  | nil => rfl
  | stays _ _ ih => simp [listExits, ih]
  | @dissolves e list inner es flat he _ _ ihInner ih =>
    obtain ⟨info, hn, -⟩ := he
    obtain ⟨span, type, flags, node⟩ := e
    subst hn
    simp [listExits_append_has, listExits, exits, nodeExits, ihInner, ih]

/-- Statements are only dropped behind one that stays and stops the flow. -/
theorem stopsFlow_reachable {leaves : Expr → Bool}
    (hleaves : ∀ e, leaves e = true → (s.exits e).stopsFlow = true) (skipping : Bool)
    (list : List Expr) :
    (skipping || (s.listExits (Expr.reachable leaves skipping list)).stopsFlow) =
      (skipping || (s.listExits list).stopsFlow) := by
  fun_induction Expr.reachable leaves skipping list with
  | case1 skipping => rfl
  | case2 skipping e es hskip ih =>
    -- What is dropped does not count: the statement in front stops the flow already.
    obtain ⟨rfl, -⟩ := Bool.and_eq_true_iff.1 hskip
    rfl
  | case3 skipping e es hskip ih =>
    rw [listExits, listExits, Exits.stopsFlow_union, Exits.stopsFlow_union]
    cases h : leaves e with
    | true => simp [hleaves e h]
    | false =>
      rw [h, Bool.false_or, Bool.false_or] at ih
      rw [ih]

theorem stopsFlow_tidied (hleaves : ∀ e, s.alwaysLeaves e = true → (s.exits e).stopsFlow = true)
    (list : List Expr) : (s.listExits (Expr.tidied s.alwaysLeaves list)).stopsFlow =
      (s.listExits list).stopsFlow := by
  have kept := stopsFlow_reachable hleaves false (Expr.inlineAll list)
  have flattened : (s.listExits (Expr.inlineAll list)).stopsFlow =
      (s.listExits list).stopsFlow := by
    rw [Bool.eq_iff_iff, Exits.stopsFlow_iff, Exits.stopsFlow_iff]
    simp only [listExits_flattens (Expr.flattens_inlineAll list)]
  exact kept.trans flattened

theorem has_of_tidied {leaves : Expr → Bool}
    (h : (s.listExits (Expr.tidied leaves list)).has x = true) :
    (s.listExits list).has x = true := by
  rw [← listExits_flattens (Expr.flattens_inlineAll list)]
  obtain ⟨e, he, hx⟩ := listExits_has.1 h
  exact listExits_has.2 ⟨e, (Expr.reachable_sublist _ _ _).subset he, hx⟩

/-- Every statement that always leaves the flow may leave it, as read off its parts. So a block that
is tidied stops the flow exactly if it did before, and it is left in no way that is new. -/
theorem alwaysLeaves_stopsFlow (s : Store) :
    (∀ e, s.alwaysLeaves e = true → (s.exits e).stopsFlow = true) ∧
      ∀ e e', s.tidyBlock? e = some e' → (s.exits e').stopsFlow = (s.exits e).stopsFlow ∧
        ∀ x, (s.exits e').has x = true → (s.exits e).has x = true := by
  have leaves (e : Expr) (h : s.alwaysLeaves e = true) : (s.exits e).stopsFlow = true := by
    obtain ⟨x, hx, hescapes⟩ := escapes_of_alwaysLeaves e h
    refine Exits.stopsFlow_iff.2 ⟨x, hx, exits_of_escapes (hescapes.mono ?_)⟩
    rintro place (rfl | rfl)
    · decide
    · decide
  refine ⟨leaves, fun e e' h => ?_⟩
  obtain ⟨info, list, finalList, hn, rfl, -⟩ := tidyBlock_cases h
  obtain ⟨span, type, flags, node⟩ := e
  subst hn
  simp only [exits, nodeExits, Exits.stopsFlow_union, Exits.has_union, Bool.or_eq_true,
    stopsFlow_tidied leaves]
  exact ⟨trivial, fun x => Or.imp has_of_tidied has_of_tidied⟩

section Sample

def panicking : Store where
  functions := { slots := #[some { name := "panic", isBuiltin := true }] }

/-- `{ if x { { return } } else { panic() } }`. -/
def returnOrPanic : Expr :=
  let block (list : List Expr) : Expr := .ofNode .builtin (.block {} list [])
  let leaving := Expr.ofNode .builtin (.ret none false false)
  let panic := Expr.ofNode .builtin (.call "panic" [] (some ⟨0⟩))
  block [.ofNode .builtin (.ifThenElse (.ofNode .builtin (.var { name := "x" }))
    (block [block [leaving]]) (some (block [panic])) false)]

def returnOrPanicThen (others : List Expr) : Expr :=
  .ofNode .builtin (.block {} (returnOrPanic :: others) [.ofNode .builtin .continueLoop])

/-- A `break` and a `goto` behind it are dropped: the block stops the flow as before, but it breaks
and jumps no more. -/
theorem alwaysLeaves_stopsFlow_returnOrPanic :
    let others := [Expr.ofNode .builtin .breakLoop, .ofNode .builtin (.goto 1 none)]
    (panicking.alwaysLeaves returnOrPanic = true ∧
      (panicking.exits returnOrPanic).stopsFlow = true) ∧
    panicking.tidyBlock? (returnOrPanicThen others) = some (returnOrPanicThen []) ∧
    (panicking.exits (returnOrPanicThen [])).stopsFlow =
      (panicking.exits (returnOrPanicThen others)).stopsFlow ∧
    (panicking.exits (returnOrPanicThen [])).bits = 13 ∧
    (panicking.exits (returnOrPanicThen others)).bits = 31 := by
  intro others
  obtain ⟨stops, tidied⟩ := alwaysLeaves_stopsFlow panicking
  have leaves : panicking.alwaysLeaves returnOrPanic = true := rfl
  have tidies : panicking.tidyBlock? (returnOrPanicThen others) =
      some (returnOrPanicThen []) := rfl
  exact ⟨⟨leaves, stops _ leaves⟩, tidies, (tidied _ _ tidies).1, rfl, rfl⟩

end Sample

end Store

end Frontend
