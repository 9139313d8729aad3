import Frontend.Proofs.Dump.Copies

/-!
# The dump that a visit builds

The visitor keeps the lists that are open. A visit of a tree leaves them as they were but for the
finished dump of the tree in the innermost one, so no node is closed that was not opened, and the
outermost one becomes the root. What is finished is the dump that is read off the tree.
-/

namespace Frontend

/-- The dump of a tree goes into the innermost open list, or it is the root. -/
def DumpState.push (d : DumpState) (dump : Sexp) : DumpState :=
  match d.opened with
  | [] => ⟨[], some dump⟩
  | parent :: rest => ⟨parent.push dump :: rest, d.root⟩

theorem DumpState.foldl_push (head ds opened : List Sexp) (root : Option Sexp) :
    ds.foldl push ⟨.list head :: opened, root⟩ = ⟨.list (head ++ ds) :: opened, root⟩ := by
  induction ds generalizing head with
  | nil => rw [List.append_nil]; rfl
  | cons d ds ih =>
    refine (ih (head ++ [d])).trans ?_
    rw [List.append_assoc]
    rfl

def Store.Readable (s : Store) (es : List Expr) : Prop :=
  ∀ e ∈ es, ∃ ms, s.Mentions e.node.items ms

/-- A visit of some trees leaves the store alone and adds their dumps. -/
structure Prints (es : List Expr) (st st' : Visit DumpState) : Prop where
  store : st'.store = st.store
  dump : ∃ ds, st'.user = ds.foldl DumpState.push st.user ∧
    (st.store.Readable es → st.store.Dumps es ds)

namespace Prints

variable {st st₁ st₂ : Visit DumpState} {e : Expr} {es fs : List Expr} {id : VarId}

theorem nil (st : Visit DumpState) : Prints [] st st := ⟨rfl, [], rfl, fun _ => .nil⟩

theorem append (h : Prints es st st₁) (h' : Prints fs st₁ st₂) : Prints (es ++ fs) st st₂ := by
  obtain ⟨store, ds, user, dumps⟩ := h
  obtain ⟨store', ds', user', dumps'⟩ := h'
  refine ⟨store'.trans store, ds ++ ds', ?_, fun readable => ?_⟩
  · rw [user', user, List.foldl_append]
  · rw [store] at dumps'
    exact (dumps fun e he => readable e (List.mem_append_left _ he)).append
      (dumps' fun e he => readable e (List.mem_append_right _ he))

/-- The initializer of a variable is visited away from the variable, which it does not declare. -/
theorem initializer {i : Expr} (hi : (st.store.var id).init = some i)
    (h : Prints [i] (st.inStore (st.store.detach id)) st₁) :
    Prints [i] st (st₁.inStore (st₁.store.attach id i)) := by
  obtain ⟨store, ds, user, dumps⟩ := h
  rw [Visit.store_inStore] at store dumps
  refine ⟨?_, ds, user, fun readable => ?_⟩
  · rw [Visit.store_inStore, store, Store.attach_detach hi]
  · obtain ⟨ms, hms⟩ := readable i (List.mem_singleton_self i)
    have apart := Store.Mentions.not_declares_of_init hi hms
    refine (dumps ?_).of_detach ?_
    · exact List.forall_mem_singleton.2 ⟨ms, hms.detach apart⟩
    · exact List.forall_mem_singleton.2 ⟨ms, hms, apart⟩

end Prints

def PrintsTree (st : Visit DumpState) (e e' : Expr) (st' : Visit DumpState) : Prop :=
  e' = e ∧ Prints [e] st st'

section Visits

variable {st st' : Visit DumpState} {e : Expr} {es es' : List Expr} {ids : List VarId}

theorem prints_chain (h : Chain Eq PrintsTree st es es' st') : es' = es ∧ Prints es st st' := by
  induction h with
  | nil => exact ⟨rfl, .nil _⟩
  | idle same _ ih => exact same ▸ ih
  | cons first _ ih =>
    obtain ⟨rfl, first⟩ := first
    obtain ⟨rfl, rest⟩ := ih
    exact ⟨rfl, first.append rest⟩

theorem prints_varVisit {id : VarId} (h : VarVisit PrintsTree st id st') :
    Prints (st.store.var id).init.toList st st' := by
  cases h with
  | blank none =>
    rw [none]
    exact .nil st
  | init hi hP =>
    obtain ⟨rfl, hP⟩ := hP
    rw [hi]
    exact hP.initializer hi

theorem prints_varChain (h : VarChain Eq (VarVisit PrintsTree) st ids st') :
    Prints (ids.filterMap fun id => (st.store.var id).init) st st' := by
  induction h with
  | nil => exact .nil _
  | idle same _ ih => exact same ▸ ih
  | @cons st st₁ st₂ id ids first _ ih =>
    have first := prints_varVisit first
    rw [first.store] at ih
    rw [filterMap_cons_toList]
    exact first.append ih

/-- What a visit comes by below a node, in its order. -/
theorem prints_walked {n : Node} {st₁ : Visit DumpState}
    (vars : VarChain Eq (VarVisit PrintsTree) st n.declared st₁)
    (children : Chain Eq PrintsTree st₁ n.visited es' st') :
    es' = n.visited ∧ Prints (st.store.walked n) st st' := by
  obtain ⟨same, children⟩ := prints_chain children
  exact ⟨same, (prints_varChain vars).append children⟩

theorem enter_run (st : Visit DumpState) (e : Expr) :
    (dumper.enter e).run st = .ok (e, ⟨st.store,
      { st.user with opened := .list (st.store.nodeHead e) :: st.user.opened }⟩) := by
  rw [← Store.nodeLabel_eq]
  rfl

/-- A node that was opened closes into what is around it. -/
theorem leave_run (st : Visit DumpState) (e : Expr) {node : Sexp} {opened : List Sexp}
    (h : st.user.opened = node :: opened) : (dumper.leave e).run st =
      .ok (.keep, ⟨st.store, (DumpState.mk opened st.user.root).push node⟩) := by
  obtain ⟨store, user, root⟩ := st
  dsimp only at h
  subst h
  cases opened with
  | nil => rfl
  | cons parent rest => rfl

/-- The list of a node takes up the dumps of what is below the node and is closed. -/
theorem prints_node (st : Visit DumpState) (e : Expr) {st₁ : Visit DumpState}
    (below : Prints (st.store.walked e.node)
      ⟨st.store, { st.user with opened := .list (st.store.nodeHead e) :: st.user.opened }⟩ st₁) :
    ∃ st₂, (dumper.leave e).run st₁ = .ok (.keep, st₂) ∧ Prints [e] st st₂ := by
  obtain ⟨store, ds, user, dumps⟩ := below
  rw [DumpState.foldl_push] at user
  refine ⟨_, leave_run st₁ e (congrArg DumpState.opened user), store,
    [.list (st.store.nodeHead e ++ ds)], ?_, fun readable => ?_⟩
  · rw [user]
    rfl
  · obtain ⟨ms, hms⟩ := readable e (List.mem_singleton_self e)
    refine .cons (dumps fun c hc => ?_) .nil
    obtain ⟨ms', hms', -⟩ := hms.of_walked hc
    exact ⟨ms', hms'⟩

theorem dumper_builds : dumper.Builds PrintsTree where
  calm := Visitor.calm_of_nodes dumper.enter dumper.leave 0
  frame h := h.2.store ▸ .refl _
  weight h := ⟨Nat.le_of_eq (by rw [h.1]), Nat.le_of_eq (by rw [h.2.store])⟩
  node st e := by
    refine ⟨e, _, enter_run st e, rfl, rfl, fun n' st₂ st₃ vars children shape => ?_⟩
    obtain ⟨same, below⟩ := prints_walked vars children
    obtain ⟨st₄, run, prints⟩ := prints_node st e below
    rw [shape.expr_eq same]
    exact ⟨.keep, st₄, run, e, rfl, rfl, prints⟩

end Visits

end Frontend
