import Frontend.Proofs.Dump.Trees
import Frontend.Traversal.Dispatch

/-!
# Dumps of trees from the dumps below them

A tree that can be read has a dump, and the dump is what its node says followed by the dumps of the
trees that a visit comes by below the node. A tree that can't be read has no copy to be visited; its
copy goes on without end, so no dump ever closes a node that was not opened.
-/

namespace Frontend

section Faults

def CopyM.OnlyEndless {α : Type} (work : CopyM α) : Prop :=
  ∀ c fault, work.run c = .error fault → fault = .endless

namespace CopyM.OnlyEndless

variable {α β : Type} {work : CopyM α} {copy : Expr → CopyM Expr}

theorem pure (a : α) : OnlyEndless (Pure.pure a) := fun _ _ h => by cases h

theorem bind {f : α → CopyM β} (h : work.OnlyEndless) (hf : ∀ a, (f a).OnlyEndless) :
    (work >>= f).OnlyEndless := by
  intro c fault hrun
  rw [StateT.run_bind] at hrun
  cases first : work.run c with
  | error fault' =>
    rw [first] at hrun
    cases hrun
    exact h c fault first
  | ok r =>
    rw [first] at hrun
    exact hf r.1 r.2 fault hrun

theorem map {g : α → β} (h : work.OnlyEndless) : (g <$> work).OnlyEndless := by
  rw [map_eq_pure_bind]
  exact h.bind fun a => .pure (g a)

theorem of_map {g : α → β} (h : (g <$> work).OnlyEndless) : work.OnlyEndless := by
  intro c fault hrun
  apply h c fault
  rw [StateT.run_map, hrun]
  rfl

theorem declared (h : ∀ e, (copy e).OnlyEndless) (id : VarId) :
    (copyVariable copy id).OnlyEndless := by
  have start : OnlyEndless (get : CopyM Copying) := fun _ _ h => by cases h
  refine start.bind fun c => bind ?_ fun init _ _ h => by cases h
  cases (c.store.var id).init with
  | none => exact .pure none
  | some i => exact (h i).map

theorem items (h : ∀ e, (copy e).OnlyEndless) (items : List Item) :
    (items.mapM (copyItem copy)).OnlyEndless := by
  induction items with
  | nil => exact .pure []
  | cons item items ih =>
    rw [List.mapM_cons]
    refine bind ?_ fun item' => ih.bind fun items' => .pure (item' :: items')
    cases item with
    | declared id => exact (OnlyEndless.declared h id).map
    | child e => exact (h e).map
    | name id => exact fun _ _ h => by cases h

theorem copyIn (steps : Nat) (e : Expr) : (Frontend.copyIn steps e).OnlyEndless := by
  induction steps generalizing e with
  | zero =>
    intro c fault h
    cases h
    rfl
  | succ steps ih =>
    have node := OnlyEndless.items ih e.node.items
    rw [mapM_items] at node
    exact node.of_map.bind fun n => .pure { e with node := n }

end CopyM.OnlyEndless

theorem Store.endless_of_copyExpr {s : Store} {e : Expr} {fault : Fault}
    (h : s.copyExpr e = .error fault) : fault = .endless := by
  unfold copyExpr at h
  cases hrun : (copyIn (s.copySteps e.weight) e).run ⟨s, []⟩ with
  | error fault' =>
    rw [hrun] at h
    cases h
    exact CopyM.OnlyEndless.copyIn _ e _ _ hrun
  | ok r =>
    rw [hrun] at h
    cases h

end Faults

namespace Store

variable {s t : Store} {e e' c : Expr} {d : Sexp} {ms : List Mention}

def Alive (s : Store) (e : Expr) : Prop :=
  ∀ v, s.DeclaresIn [.child e] v → v.index < s.vars.slots.size

theorem Alive.of_walked (h : s.Alive e) (hc : c ∈ s.walked e.node) : s.Alive c := by
  intro v hv
  apply h v
  apply DeclaresIn.child (.head _)
  cases hv with
  | here declared => cases declared with | tail _ none => cases none
  | init declared => cases declared with | tail _ none => cases none
  | child child hd =>
    obtain rfl := Item.child.inj (List.mem_singleton.1 child)
    rcases mem_walked hc with hc | ⟨id, hid, hi⟩
    · exact .child hc hd
    · exact .init hid hi hd

theorem Mentions.of_child (h : s.Mentions [.child e] ms) : ∃ ms', s.Mentions e.node.items ms' := by
  cases h with
  | child h _ => exact ⟨_, h⟩

/-- The visit of a copy ends with nothing left open and the dump of the original as the root. -/
theorem visit_copy (alive : s.Alive e) (readable : s.Mentions [.child e] ms)
    (copy : s.copyExpr e = .ok (e', t)) :
    ∃ out d, (dumper.visit e').run ⟨t, {}⟩ = .ok (out, ⟨t, ⟨[], some d⟩⟩) ∧ s.Dumps [e] [d] := by
  obtain ⟨mentions, alike⟩ := alike_of_copyExpr alive readable copy
  obtain ⟨out, ⟨t', left⟩, run, _, -, -, prints⟩ := dumper_builds.visit_ends ⟨t, {}⟩ e'
  obtain ⟨ds, user, dumps⟩ := prints.dump
  obtain rfl : t = t' := prints.store.symm
  have read : t.Dumps [e'] ds := dumps (List.forall_mem_singleton.2 mentions.of_child)
  cases read with
  | cons below behind =>
    cases behind
    obtain rfl := user
    refine ⟨out, _, run, ?_⟩
    apply Dumps.of_alike (.cons below .nil) (addsVars_copyExpr copy).rest.typeText
    exact .cons alike .nil

theorem exprSexp_of_visit {out : Rewrite Expr × Expr} {final : Visit DumpState}
    (copy : s.copyExpr e = .ok (e', t))
    (run : (dumper.visit e').run ⟨t, {}⟩ = .ok (out, final)) :
    s.exprSexp e = .ok (final.user.root.getD (.list [])) := by
  unfold exprSexp
  rw [copy]
  exact congrArg (· >>= fun r => Pure.pure (r.2.user.root.getD (.list []))) run

/-- The dump that is built is the dump that is read off the tree. -/
theorem exprSexp_eq_ok_iff (alive : s.Alive e) :
    s.exprSexp e = .ok d ↔ (∃ ms, s.Mentions [.child e] ms) ∧ s.Dumps [e] [d] := by
  constructor
  · intro h
    obtain ⟨⟨e', t⟩, copy, -⟩ := ok_of_bind h
    obtain ⟨ms, readable⟩ := mentions_of_copyExpr alive copy
    obtain ⟨out, d', run, dumps⟩ := visit_copy alive readable copy
    rw [exprSexp_of_visit copy run] at h
    cases h
    exact ⟨⟨ms, readable⟩, dumps⟩
  · rintro ⟨⟨ms, readable⟩, dumps⟩
    obtain ⟨e', c, copy, -⟩ :=
      copyExpr_copied readable fun v hv => alive v (readable.declares_of_mem hv)
    obtain ⟨out, d', run, dumps'⟩ := visit_copy alive readable copy
    obtain rfl := List.singleton_injective (dumps.unique dumps')
    exact exprSexp_of_visit copy run

/-- A copy that is there is visited to its end, and what it leaves is the dump of the original. -/
theorem exprSexp_built (alive : s.Alive e) (copy : s.copyExpr e = .ok (e', t)) : ∃ out d,
    (dumper.visit e').run ⟨t, {}⟩ = .ok (out, ⟨t, ⟨[], some d⟩⟩) ∧ s.exprSexp e = .ok d := by
  obtain ⟨ms, readable⟩ := mentions_of_copyExpr alive copy
  obtain ⟨out, d, run, -⟩ := visit_copy alive readable copy
  exact ⟨out, d, run, exprSexp_of_visit copy run⟩

theorem exprSexp_ends_iff (alive : s.Alive e) :
    (∃ d, s.exprSexp e = .ok d) ↔ ∃ ms, s.Mentions [.child e] ms := by
  constructor
  · rintro ⟨d, h⟩
    exact ((exprSexp_eq_ok_iff alive).1 h).1
  · rintro ⟨ms, readable⟩
    obtain ⟨e', c, copy, -⟩ :=
      copyExpr_copied readable fun v hv => alive v (readable.declares_of_mem hv)
    obtain ⟨out, d, run, h⟩ := exprSexp_built alive copy
    exact ⟨d, h⟩

theorem endless_of_exprSexp {fault : Fault} (alive : s.Alive e)
    (h : s.exprSexp e = .error fault) : fault = .endless := by
  cases copy : s.copyExpr e with
  | error fault' =>
    unfold exprSexp at h
    rw [copy] at h
    cases h
    exact endless_of_copyExpr copy
  | ok r =>
    obtain ⟨out, d, run, hd⟩ := exprSexp_built alive copy
    rw [h] at hd
    cases hd

/-- The trees below a node have dumps of their own, which its dump holds. -/
theorem exprSexp_below (alive : s.Alive e) (h : s.exprSexp e = .ok d) :
    ∃ ds, d = .list (s.nodeHead e ++ ds) ∧
      List.Forall₂ (fun c d => s.exprSexp c = .ok d) (s.walked e.node) ds := by
  obtain ⟨⟨ms, readable⟩, dumps⟩ := (exprSexp_eq_ok_iff alive).1 h
  obtain ⟨ds, rfl, below⟩ := Dumps.single_iff.1 dumps
  obtain ⟨ms', inside⟩ := readable.of_child
  have each : List.Forall₂ (fun c d => c ∈ s.walked e.node ∧ s.Dumps [c] [d])
      (s.walked e.node) ds :=
    (List.forall₂_and_left _ _).2 ⟨fun _ hc => hc, Dumps.iff_forall₂.1 below⟩
  refine ⟨ds, rfl, each.imp fun c d ⟨hc, hd⟩ => ?_⟩
  obtain ⟨msc, hmsc, -⟩ := inside.of_walked hc
  exact (exprSexp_eq_ok_iff (alive.of_walked hc)).2 ⟨⟨_, .child hmsc .nil⟩, hd⟩

/-- A visitor that has hooks for all nodes gets one call of each around the children of a node,
whatever the kind. So a dump never closes a node that was not opened: a tree that can be read has a
dump, the root that is left when everything is closed, and a tree that can't be read goes on without
end before anything is dumped. A dump is what the node says, followed by the dumps of the trees that
a visit comes by below it, in its order. -/
theorem exprSexp_recursive (s : Store) (e : Expr)
    (alive : ∀ v, s.DeclaresIn [.child e] v → v.index < s.vars.slots.size) :
    (({ enter := dumper.enter, leave := dumper.leave } : NodeHooks DumpState).enterNode =
        dumper.enter ∧
      ({ enter := dumper.enter, leave := dumper.leave } : NodeHooks DumpState).leaveNode =
        dumper.leave) ∧
    ((∃ d, s.exprSexp e = .ok d) ↔ ∃ ms, s.Mentions [.child e] ms) ∧
    (∀ fault, s.exprSexp e = .error fault → fault = .endless) ∧
    (∀ e' t, s.copyExpr e = .ok (e', t) → ∃ out d,
      (dumper.visit e').run ⟨t, {}⟩ = .ok (out, ⟨t, ⟨[], some d⟩⟩) ∧ s.exprSexp e = .ok d) ∧
    ∀ d, s.exprSexp e = .ok d → ∃ ds, d = .list (s.nodeHead e ++ ds) ∧
      List.Forall₂ (fun c d => s.exprSexp c = .ok d) (s.walked e.node) ds := by
  refine ⟨⟨?_, ?_⟩, exprSexp_ends_iff alive, ?_, ?_, ?_⟩
  · exact NodeHooks.enterNode_generic dumper.enter dumper.leave
  · exact NodeHooks.leaveNode_generic dumper.enter dumper.leave
  · intro fault h
    exact endless_of_exprSexp alive h
  · intro e' t copy
    exact exprSexp_built alive copy
  · intro d h
    exact exprSexp_below alive h

/-- The dump of the block that declares `x` and `y` holds those of its three statements. -/
theorem exprSexp_recursive_useOfXYZ :
    (∀ v, xyz.DeclaresIn [.child useOfXYZ] v → v.index < xyz.vars.slots.size) ∧
    ∃ declare y z, xyz.exprSexp useOfXYZ = .ok (.list [.atom "Block", declare, y, z]) ∧
      xyz.exprSexp (.ofNode .builtin (.declare [⟨0⟩, ⟨1⟩] false)) = .ok declare ∧
      xyz.exprSexp (.nameOf "y" ⟨1⟩) = .ok y ∧ xyz.exprSexp (.nameOf "z" ⟨2⟩) = .ok z := by
  have alive (v : VarId) (h : xyz.DeclaresIn [.child useOfXYZ] v) :
      v.index < xyz.vars.slots.size := by
    have declared : v = ⟨0⟩ ∨ v = ⟨1⟩ := by simpa using mentions_useOfXYZ.mem_of_declares h
    rcases declared with rfl | rfl
    · decide
    · decide
  obtain ⟨-, readable, -, -, recursive⟩ := exprSexp_recursive xyz useOfXYZ alive
  obtain ⟨d, h⟩ := readable.2 ⟨_, mentions_useOfXYZ⟩
  obtain ⟨ds, rfl, below⟩ := recursive d h
  cases below with
  | cons declare below =>
    cases below with
    | cons y below =>
      cases below with
      | cons z none =>
        cases none
        exact ⟨alive, _, _, _, h, declare, y, z⟩

end Store

end Frontend
