import Frontend.Proofs.Copying.Faithful
import Frontend.Proofs.Layout.Staying
import Frontend.Traversal.Dump

/-!
# Dumps as they are read off trees

The dump of a tree is a list: what its node says by itself, then the dumps of the trees that a visit
comes by below the node. A copy of a tree has the same dump, and so has a tree in a store where only
variables that it does not declare have lost their initializers.
-/

namespace Frontend

def Store.nodeHead (s : Store) (e : Expr) : List Sexp :=
  .atom (String.ofList (e.nodeName.toList.drop 4)) :: s.labelDetails e.node

theorem Store.nodeLabel_eq (s : Store) (e : Expr) : s.nodeLabel e = .list (s.nodeHead e) := rfl

/-- The trees that a visit comes by below a node, in its order: the initializers of the variables
that are declared there, then the children. -/
def Store.walked (s : Store) (n : Node) : List Expr :=
  n.declared.filterMap (fun id => (s.var id).init) ++ n.visited

/-- The dumps of some trees: each is a list of what the node says and of the dumps below it. -/
inductive Store.Dumps (s : Store) : List Expr → List Sexp → Prop
  | nil : s.Dumps [] []
  | cons {e es ds rest} (below : s.Dumps (s.walked e.node) ds) (behind : s.Dumps es rest) :
    s.Dumps (e :: es) (.list (s.nodeHead e ++ ds) :: rest)

namespace Store.Dumps

variable {s t : Store} {e : Expr} {es fs : List Expr} {d : Sexp} {ds ds' : List Sexp} {id : VarId}

theorem unique (h : s.Dumps es ds) (h' : s.Dumps es ds') : ds = ds' := by
  induction h generalizing ds' with
  | nil =>
    cases h'
    rfl
  | cons _ _ below behind =>
    cases h' with
    | cons hbelow hbehind => rw [below hbelow, behind hbehind]

/-- Each tree has its own dump. -/
theorem iff_forall₂ : s.Dumps es ds ↔ List.Forall₂ (fun e d => s.Dumps [e] [d]) es ds := by
  constructor
  · intro h
    induction h with
    | nil => exact .nil
    | cons below _ _ behind => exact .cons (.cons below .nil) behind
  · intro h
    induction h with
    | nil => exact .nil
    | cons first _ behind =>
      cases first with
      | cons below _ => exact .cons below behind

theorem append (h : s.Dumps es ds) (h' : s.Dumps fs ds') : s.Dumps (es ++ fs) (ds ++ ds') :=
  iff_forall₂.2 (List.rel_append (iff_forall₂.1 h) (iff_forall₂.1 h'))

/-- The dump of a tree starts with what its node says. -/
theorem single_iff : s.Dumps [e] [d] ↔
    ∃ ds, d = .list (s.nodeHead e ++ ds) ∧ s.Dumps (s.walked e.node) ds := by
  constructor
  · intro h
    cases h with
    | cons below _ => exact ⟨_, rfl, below⟩
  · rintro ⟨ds, rfl, below⟩
    exact .cons below .nil

end Store.Dumps

section Items

/-- What a visit comes by below a node, variables before their initializers are looked up. -/
def Node.walkItems (n : Node) : List Item := n.declared.map .declared ++ n.visited.map .child

def Node.walksAll : Node → Bool
  | .block .. | .forEach .. | .var _ => false
  | _ => true

theorem Node.walkItems_eq {n : Node} (h : n.walksAll = true) : n.walkItems = n.items := by
  cases n with
  | block | forEach | var => cases h
  | literal value => cases value <;> simp [walkItems, items, parts, Part.items, declared, visited]
  | _ =>
    simp [walkItems, items, parts, Part.items, declared, visited, List.map_flatMap,
      Function.comp_def]

/-- The statements of a block that a visit comes by, before or after the others. -/
theorem Node.items_block (info : BlockInfo) (list finalList : List Expr) :
    (block info list finalList).items =
      info.args.map .declared ++ (list.map .child ++ finalList.map .child) := by
  simp [items, parts, Part.items]

theorem Node.items_forEach (names : List String) (vars : List VarId) (sources : List Expr)
    (body : Option Expr) : (forEach names vars sources body).items =
      vars.map .declared ++ (sources.map .child ++ body.toList.map .child) := by
  simp [items, parts, Part.items]

theorem Node.walkItems_subset (n : Node) : n.walkItems ⊆ n.items := by
  by_cases h : n.walksAll = true
  · rw [walkItems_eq h]
    exact List.Subset.refl _
  · cases n with
    | block info list finalList =>
      have final : visitedFinally info finalList ⊆ finalList := by
        unfold visitedFinally
        split
        · exact List.nil_subset _
        · exact List.Subset.refl _
      have final := List.Subset.trans final (List.subset_append_right list finalList)
      have statements : (block info list finalList).visited ⊆ list ++ finalList := by
        simp only [visited]
        split
        · exact List.append_subset.2 ⟨final, List.subset_append_left _ _⟩
        · exact List.append_subset.2 ⟨List.subset_append_left _ _, final⟩
      rw [items_block, ← List.map_append]
      exact List.append_subset.2 ⟨List.subset_append_left _ _,
        List.Subset.trans (List.map_subset _ statements) (List.subset_append_right _ _)⟩
    | forEach => simp [walkItems, items_forEach, declared, visited]
    | var => simp [walkItems, declared, visited]
    | _ => exact absurd rfl h

theorem Store.mem_walked {s : Store} {n : Node} {c : Expr} (h : c ∈ s.walked n) :
    .child c ∈ n.items ∨ ∃ id, .declared id ∈ n.items ∧ (s.var id).init = some c := by
  rcases List.mem_append.1 h with h | h
  · obtain ⟨id, hid, hc⟩ := List.mem_filterMap.1 h
    have walked : .declared id ∈ n.walkItems := List.mem_append_left _ (List.mem_map_of_mem hid)
    exact .inr ⟨id, n.walkItems_subset walked, hc⟩
  · exact .inl (n.walkItems_subset (List.mem_append_right _ (List.mem_map_of_mem h)))

/-- If a node can be read then so can the trees below it, and they mention nothing else. -/
theorem Store.Mentions.of_walked {s : Store} {n : Node} {c : Expr} {ms : List Mention}
    (h : s.Mentions n.items ms) (hc : c ∈ s.walked n) :
    ∃ ms', s.Mentions c.node.items ms' ∧ ms' ⊆ ms := by
  rcases mem_walked hc with hc | ⟨id, hid, hi⟩
  · obtain ⟨ms', h', hsub⟩ := h.of_mem hc
    cases h' with
    | child he _ => exact ⟨_, he, List.append_subset.1 hsub |>.1⟩
  · obtain ⟨ms', h', hsub⟩ := h.of_mem hid
    cases h' with
    | plain none =>
      rw [hi] at none
      cases none
    | init hi' he _ =>
      rw [hi] at hi'
      cases hi'
      exact ⟨_, he, List.append_subset.1 hsub |>.1⟩

end Items

section Detached

variable {s : Store} {es : List Expr} {ds : List Sexp} {id : VarId}

/-- What types are called does not depend on variables. -/
theorem Store.VarsOnly.typeText {t : Store} (h : s.VarsOnly t) (type : Ty) :
    t.typeText type = s.typeText type := by
  have stays : s.StaysFor t type := fun v _ => by
    rw [h]
    exact ⟨fun _ _ => rfl, fun _ _ => rfl, fun _ _ => rfl⟩
  exact stays.typeText

theorem Store.detach_kept (s : Store) (id other : VarId) :
    ((s.detach id).var other).name = (s.var other).name ∧
      ((s.detach id).var other).type = (s.var other).type := by
  simp only [detach, modifyVariable, var, Table.get?_modify]
  by_cases same : other = id
  · rw [if_pos same]
    cases s.vars.get? other <;> exact ⟨rfl, rfl⟩
  · rw [if_neg same]
    exact ⟨rfl, rfl⟩

theorem Store.labelDetails_declare (s : Store) (ids : List VarId) (inScope : Bool) :
    s.labelDetails (.declare ids inScope) =
      ids.map fun id => .ofAtoms [(s.var id).name, s.typeText (s.var id).type] := rfl

/-- What a node says depends on names and types of variables only. -/
theorem Store.labelDetails_congr {t : Store} {n : Node}
    (types : ∀ type, t.typeText type = s.typeText type)
    (vars : ∀ id ∈ n.declared, (t.var id).name = (s.var id).name ∧
      (t.var id).type = (s.var id).type) :
    t.labelDetails n = s.labelDetails n := by
  cases n with
  | declare ids =>
    rw [labelDetails_declare, labelDetails_declare]
    refine List.map_congr_left fun id hid => ?_
    obtain ⟨name, type⟩ := vars id hid
    rw [name, type, types]
  | literal value => cases value <;> rfl
  | field access => cases access <;> rfl
  | _ => rfl

theorem Store.nodeHead_detach (s : Store) (id : VarId) (e : Expr) :
    (s.detach id).nodeHead e = s.nodeHead e := by
  unfold nodeHead
  rw [labelDetails_congr (s.varsOnly_detach id).typeText fun other _ => s.detach_kept id other]

/-- Below a node that does not declare the variable the same trees are visited. -/
theorem Store.walked_detach {n : Node} {ms : List Mention} (h : s.Mentions n.items ms)
    (apart : .declares id ∉ ms) : (s.detach id).walked n = s.walked n := by
  refine congrArg (· ++ n.visited) (List.filterMap_congr fun other hother => ?_)
  rw [init_detach, if_neg]
  rintro rfl
  have walked : .declared other ∈ n.walkItems :=
    List.mem_append_left _ (List.mem_map_of_mem hother)
  exact apart (h.mem_of_declares (.here (n.walkItems_subset walked)))

/-- Trees that do not declare a variable have the same dumps while its initializer is away. -/
theorem Store.Dumps.of_detach (h : (s.detach id).Dumps es ds)
    (apart : ∀ e ∈ es, ∃ ms, s.Mentions e.node.items ms ∧ .declares id ∉ ms) : s.Dumps es ds := by
  induction h with
  | nil => exact .nil
  | cons _ _ below behind =>
    obtain ⟨⟨ms, hms, hid⟩, others⟩ := List.forall_mem_cons.1 apart
    rw [nodeHead_detach]
    rw [walked_detach hms hid] at below
    refine .cons (below fun c hc => ?_) (behind others)
    obtain ⟨ms', h', hsub⟩ := hms.of_walked hc
    exact ⟨ms', h', fun hd => hid (hsub hd)⟩

end Detached

end Frontend
