import Frontend.Proofs.Dump.Reading

/-!
# Dumps of copies

Node by node a copy says what its original says, and the trees that a visit of the copy comes by are
copies of those that a visit of the original comes by. So a copy has the dump of its original.
-/

namespace Frontend

variable {s t : Store} {R : VarId → VarId → Prop} {n n' : Node} {ps : List Part}

/-- Items that stand over each other are alike one by one. -/
theorem Store.Alike.iff_forall₂ {items items' : List Item} : s.Alike t R items items' ↔
    List.Forall₂ (fun item item' => s.Alike t R [item] [item']) items items' := by
  constructor
  · intro h
    induction h with
    | nil => exact .nil
    | name link _ ih => exact .cons (.name link .nil) ih
    | child node inner _ _ ih => exact .cons (.child node inner .nil) ih
    | declared link copy inner _ _ ih => exact .cons (.declared link copy inner .nil) ih
  · intro h
    induction h with
    | nil => exact .nil
    | cons first _ ih => exact first.cons ih

theorem Store.Alike.append {is is' js js' : List Item} (h : s.Alike t R is is')
    (h' : s.Alike t R js js') : s.Alike t R (is ++ js) (is' ++ js') :=
  iff_forall₂.2 (List.rel_append (iff_forall₂.1 h) (iff_forall₂.1 h'))

theorem Store.Alike.split {is is' js js' : List Item} (h : s.Alike t R (is ++ js) (is' ++ js'))
    (length : is'.length = is.length) : s.Alike t R is is' ∧ s.Alike t R js js' := by
  obtain ⟨hi, hj⟩ := forall₂_of_append length.symm (iff_forall₂.1 h)
  exact ⟨iff_forall₂.2 hi, iff_forall₂.2 hj⟩

section Kinds

/-- Other parts in the places of a node make a node of the same kind. -/
theorem Node.sameKind_of_withParts? (h : n.withParts? ps = some n') :
    n'.name = n.name ∧ n'.walksAll = n.walksAll := by
  cases n with
  | literal value =>
    cases value
    all_goals
      simp only [withParts?] at h
      split at h <;> cases h
      exact ⟨rfl, rfl⟩
  | _ =>
    simp only [withParts?] at h
    split at h <;> cases h
    exact ⟨rfl, rfl⟩

/-- A variable that a copy declares has the name and the type of the original. -/
theorem Store.Alike.var_kept {v v' : VarId} (h : s.Alike t R [.declared v] [.declared v']) :
    (t.var v').name = (s.var v).name ∧ (t.var v').type = (s.var v).type := by
  cases h with
  | declared _ copy => exact ⟨by rw [var, copy]; rfl, by rw [var, copy]; rfl⟩

theorem Node.items_declare (ids : List VarId) (inScope : Bool) :
    (declare ids inScope).items = ids.map .declared := by
  simp [items, parts, Part.items]

/-- A declaration says the names and types of its variables, which the copies share. -/
theorem Store.Alike.declare_eq {ids ids' : List VarId} {inScope inScope' : Bool}
    (types : ∀ type, t.typeText type = s.typeText type)
    (h : s.Alike t R (ids.map .declared) (ids'.map .declared)) :
    t.labelDetails (.declare ids' inScope') = s.labelDetails (.declare ids inScope) := by
  have each := iff_forall₂.1 h
  rw [List.forall₂_map_left_iff, List.forall₂_map_right_iff] at each
  rw [labelDetails_declare, labelDetails_declare]
  clear h
  induction each with
  | nil => rfl
  | cons first _ ih =>
    obtain ⟨name, type⟩ := first.var_kept
    rw [List.map_cons, List.map_cons, name, type, types, ih]

/-- A copy says what its original says. -/
theorem Store.Alike.labelDetails_eq (types : ∀ type, t.typeText type = s.typeText type)
    (node : n.Resembles n') (inner : s.Alike t R n.items n'.items) :
    t.labelDetails n' = s.labelDetails n := by
  obtain ⟨kind, outline⟩ := node
  cases n with
  | literal value =>
    cases value
    all_goals
      simp only [Node.withParts?] at kind
      split at kind <;> cases kind
      simp_all [Node.parts, Part.outline, labelDetails]
  | declare ids =>
    simp only [Node.withParts?] at kind
    split at kind <;> cases kind
    rw [Node.items_declare, Node.items_declare] at inner
    exact inner.declare_eq types
  | namedCall name args =>
    simp only [Node.withParts?] at kind
    split at kind <;> cases kind
    simp only [Node.parts, Part.outline, List.map_cons, List.map_nil, List.cons.injEq,
      Part.text.injEq, Part.fields.injEq, and_true] at outline
    obtain ⟨rfl, same⟩ := outline
    have names := congrArg (List.map fun f : FieldInit => Sexp.ofAtoms ["=", f.name]) same
    rw [List.map_map, List.map_map] at names
    exact congrArg (List.cons _) names
  | field access =>
    simp only [Node.withParts?] at kind
    split at kind <;> cases kind
    cases access <;> simp_all [Node.parts, Part.outline, labelDetails]
  | _ =>
    simp only [Node.withParts?] at kind
    split at kind <;> cases kind
    simp_all [Node.parts, Part.outline, labelDetails]

theorem Store.Alike.nodeHead_eq {e : Expr} (types : ∀ type, t.typeText type = s.typeText type)
    (node : e.node.Resembles n') (inner : s.Alike t R e.node.items n'.items) :
    t.nodeHead { e with node := n' } = s.nodeHead e := by
  have name : n'.name = e.node.name := (Node.sameKind_of_withParts? node.kind).1
  unfold nodeHead Expr.nodeName
  rw [name, inner.labelDetails_eq types node]

end Kinds

section Walks

/-- A visit takes up the statements of a block in one of two orders, or leaves some out. -/
theorem Store.Alike.walkItems_block {info info' : BlockInfo}
    {list list' finalList finalList' : List Expr} (args : info'.args.length = info.args.length)
    (length : list'.length = list.length)
    (before : info'.finallyBeforeBody = info.finallyBeforeBody)
    (disabled : info'.finallyDisabled = info.finallyDisabled)
    (inner : s.Alike t R (Node.block info list finalList).items
      (Node.block info' list' finalList').items) :
    s.Alike t R (Node.block info list finalList).walkItems
      (Node.block info' list' finalList').walkItems := by
  rw [Node.items_block, Node.items_block] at inner
  obtain ⟨vars, statements⟩ := inner.split (by simpa using args)
  obtain ⟨body, final⟩ := statements.split (by simpa using length)
  have visited : s.Alike t R ((visitedFinally info finalList).map .child)
      ((visitedFinally info' finalList').map .child) := by
    unfold visitedFinally
    rw [disabled]
    split
    · exact .nil
    · exact final
  refine vars.append ?_
  simp only [Node.visited, before]
  split
  · rw [List.map_append, List.map_append]
    exact visited.append body
  · rw [List.map_append, List.map_append]
    exact body.append visited

/-- A loop tells a visit of its variables but does not have them entered. -/
theorem Store.Alike.walkItems_forEach {names names' : List String} {vars vars' : List VarId}
    {sources sources' : List Expr} {body body' : Option Expr} (length : vars'.length = vars.length)
    (inner : s.Alike t R (Node.forEach names vars sources body).items
      (Node.forEach names' vars' sources' body').items) :
    s.Alike t R (Node.forEach names vars sources body).walkItems
      (Node.forEach names' vars' sources' body').walkItems := by
  rw [Node.items_forEach, Node.items_forEach] at inner
  have trees := (inner.split (by simpa using length)).2
  simpa [Node.walkItems, Node.declared, Node.visited] using trees

/-- What a visit of a copy comes by is alike what a visit of the original comes by. -/
theorem Store.Alike.walkItems (node : n.Resembles n') (inner : s.Alike t R n.items n'.items) :
    s.Alike t R n.walkItems n'.walkItems := by
  have same := (Node.sameKind_of_withParts? node.kind).2
  by_cases all : n.walksAll = true
  · rw [Node.walkItems_eq all, Node.walkItems_eq (same.trans all)]
    exact inner
  · obtain ⟨kind, outline⟩ := node
    cases n with
    | var =>
      simp only [Node.withParts?] at kind
      split at kind <;> cases kind
      exact .nil
    | forEach =>
      simp only [Node.withParts?] at kind
      split at kind <;> cases kind
      simp only [Node.parts, Part.outline, List.map_cons, List.cons.injEq, Part.vars.injEq,
        List.map_const', List.replicate_inj] at outline
      exact inner.walkItems_forEach outline.2.1.1
    | block =>
      simp only [Node.withParts?] at kind
      split at kind <;> cases kind
      simp only [Node.parts, Part.outline, List.map_cons, List.cons.injEq, Part.vars.injEq,
        Part.trees.injEq, Part.flag.injEq, List.map_const', List.replicate_inj] at outline
      obtain ⟨args, length, -, -, -, -, -, before, disabled, -⟩ := outline
      exact inner.walkItems_block args.1 length.1 before disabled
    | _ => exact absurd rfl all

abbrev Store.AlikeTrees (s t : Store) (R : VarId → VarId → Prop) (es es' : List Expr) : Prop :=
  List.Forall₂ (fun e e' => s.Alike t R [.child e] [.child e']) es es'

theorem Store.Alike.trees {es es' : List Expr} (h : s.Alike t R (es.map .child) (es'.map .child)) :
    s.AlikeTrees t R es es' := by
  have each := iff_forall₂.1 h
  rwa [List.forall₂_map_left_iff, List.forall₂_map_right_iff] at each

theorem Store.Alike.init_trees {v v' : VarId} (h : s.Alike t R [.declared v] [.declared v']) :
    s.AlikeTrees t R (s.var v).init.toList (t.var v').init.toList := by
  cases h with
  | @declared _ _ init _ _ _ copy inner _ =>
    have kept : (t.var v').init = init := by rw [var, copy, Option.getD_some]
    rw [kept]
    exact inner.trees

/-- Declared variables stand over declared variables, and trees over trees. -/
theorem Store.Alike.walked_trees {ids ids' : List VarId} {es es' : List Expr}
    (h : s.Alike t R (ids.map .declared ++ es.map .child) (ids'.map .declared ++ es'.map .child)) :
    s.AlikeTrees t R (ids.filterMap (fun id => (s.var id).init) ++ es)
      (ids'.filterMap (fun id => (t.var id).init) ++ es') := by
  induction ids generalizing ids' with
  | nil =>
    cases ids' with
    | nil => exact h.trees
    | cons => cases es <;> cases h
  | cons v ids ih =>
    cases ids' with
    | nil => cases es' <;> cases h
    | cons v' ids' =>
      have parts : s.Alike t R ([.declared v] ++ _) ([.declared v'] ++ _) := h
      obtain ⟨first, rest⟩ := parts.split rfl
      rw [filterMap_cons_toList, filterMap_cons_toList, List.append_assoc, List.append_assoc]
      exact List.rel_append first.init_trees (ih rest)

/-- The trees below a copy are copies of those below the original. -/
theorem Store.Alike.walked (node : n.Resembles n') (inner : s.Alike t R n.items n'.items) :
    s.AlikeTrees t R (s.walked n) (t.walked n') :=
  (inner.walkItems node).walked_trees

/-- Trees have the dumps of their copies. -/
theorem Store.Dumps.of_alike {es es' : List Expr} {ds : List Sexp} (h : t.Dumps es' ds)
    (types : ∀ type, t.typeText type = s.typeText type) (alike : s.AlikeTrees t R es es') :
    s.Dumps es ds := by
  induction h generalizing es with
  | nil =>
    cases alike
    exact .nil
  | cons _ _ below behind =>
    cases alike with
    | cons first rest =>
      cases first with
      | child node inner =>
        rw [inner.nodeHead_eq types node]
        exact .cons (below (inner.walked node)) (behind rest)

end Walks

end Frontend
