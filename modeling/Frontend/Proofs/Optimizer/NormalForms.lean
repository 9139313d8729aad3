import Frontend.Proofs.Optimizer.Exhausting
import Frontend.Proofs.Optimizer.Pruning

/-!
# Every pass reaches its normal form in one run

A pass that says that it changed something has taken from the bulk of the program; one that does not
has set marks of what is used at most. When a pass has run once there is nothing left for it to do:
its rule applies nowhere, and what the removal of unused declarations has left is exactly what is
needed, before and after.
-/

namespace Frontend.Program

variable {p p' : Program} {rule : Store → Expr → Option Expr} {S : Expr → Expr → Prop}

/-- After one run the rule of a pass applies nowhere, and only trees are rewritten. -/
theorem rewrite_normalizes (hp : p.Settled) (hR : Diminishes rule)
    (hfinal : ∀ s, Exhausts (rule s)) (hS : SoundRule rule p.store S) :
    Ends (rewrite rule) p fun _ p' => ¬ p'.Fires rule ∧ ∃ t, p.store.Rewritten S t ∧
      t.Retains p'.store Set.univ ∧ p' = (p.inStore t).collect := by
  refine (rewrite_exhausts hR hfinal hS).mono ?_
  rintro _ _ ⟨t, rfl, hrewritten, hidle⟩
  have hretains : t.Retains (p.inStore t).collect.store Set.univ :=
    (hp.secure.of_rewritten hrewritten).retains_collect
  exact ⟨hidle _ (Store.partOf_collect t _) (.of_retains hretains), t, hrewritten, hretains, rfl⟩

theorem rewrite_again (hp : p.Settled) (hR : Diminishes rule) (hfinal : ∀ s, Exhausts (rule s)) :
    Ends (rewrite rule) p fun _ p' => p'.Settled ∧ (rewrite rule).run p' = .ok (false, p') := by
  refine (rewrite_normalizes hp hR hfinal (.trivial hR.weight)).mono ?_
  rintro _ _ ⟨hno, t, -, -, rfl⟩
  have hsettled := settled_collect (p.inStore t)
  refine ⟨hsettled, ?_⟩
  have hrun := rewrite_idle hR hno
  rwa [hsettled.collect_eq] at hrun

/-- What a removal leaves, a second one leaves as it is. -/
theorem removeUnused_again (hp : p.Settled) :
    Ends removeUnused p fun _ p' => p'.Settled ∧ removeUnused.run p' = .ok (false, p') := by
  have clean {removed : Bool} {s : Store} (hdrop : p.store.dropUnused p.this = .ok (removed, s))
      (hq : (∃ id, (p.inStore s).collect.IsEntry id) → (p.inStore s).collect.Pruned) :
      Ends removeUnused p fun _ p' => p'.Settled ∧ removeUnused.run p' = .ok (false, p') := by
    obtain ⟨changed, p', hclean, hno, t, ht, hr, rfl⟩ :=
      rewrite_normalizes (settled_collect (p.inStore s)) .cleanBlock (fun _ => Exhausts.cleanBlock)
        (.sameNames _)
    refine ⟨_, _, removeUnused_run hdrop hclean, settled_collect _, ?_⟩
    refine removeUnused_of_pruned (settled_collect _) ?_ hno
    rintro ⟨id, hid⟩
    exact (hq ⟨id, ((needsSame_cleaned ht hr).entry id).1 hid⟩).cleaned ht hr
  by_cases hentry : p.store.entryPoints p.thisModule = []
  · refine clean (Store.dropUnused_of_no_entry hentry) ?_
    have hsame : (p.inStore p.store).collect = p := hp.collect_eq
    rw [hsame]
    rintro ⟨id, hid⟩
    rw [← mem_entryPoints, hentry] at hid
    cases hid
  · obtain ⟨used, trim, removed, hused, hdrops, hrun⟩ := Store.dropUnused_run hentry
    refine clean hrun fun _ => ?_
    exact pruned_dropped hp hentry (Store.marked_foldl used (.refl _))
      (fun x hx => Store.isMarked_foldl (.inl hx)) hused hdrops.trimmed

structure SameUpToMarks (p p' : Program) : Prop where
  frame : p' = p.inStore p'.store
  store : p.store.Marked p'.store

theorem SameUpToMarks.refl (p : Program) : p.SameUpToMarks p := ⟨rfl, .refl _⟩

theorem SameUpToMarks.bulk (h : p.SameUpToMarks p') : p'.bulk = p.bulk := by
  have store := h.store.bulk
  have module := h.store.module p.this
  rw [h.frame]
  change p'.store.bulk + (p'.store.module p.this).registered = p.bulk
  rw [store, module]
  rfl

/-- A pass that says that it changed nothing has set marks at most. -/
theorem sameUpToMarks_of_pass {pass : ProgramM Bool} (h : pass ∈ passes) (hp : p.Settled)
    (hrun : pass.run p = .ok (false, p')) : p.SameUpToMarks p' := by
  obtain rfl | ⟨rule, hrule, rfl⟩ := of_mem_passes h
  · obtain ⟨s, hmarked, rfl, -⟩ := removeUnused_settled hp hrun
    exact ⟨rfl, hmarked⟩
  · obtain ⟨rfl, -⟩ := rewrite_settled hrule.diminishes hp hrun
    exact .refl p'

theorem changed_iff_of_pass {pass : ProgramM Bool} (h : pass ∈ passes) (hp : p.Settled)
    {changed : Bool} (hrun : pass.run p = .ok (changed, p')) :
    changed = true ↔ ¬ p.SameUpToMarks p' := by
  cases changed with
  | false => exact iff_of_false Bool.false_ne_true (not_not_intro (sameUpToMarks_of_pass h hp hrun))
  | true =>
    refine iff_of_true rfl fun hsame => ?_
    have hless := ((settles_of_pass h p).of_run hrun).bulk
    rw [hsame.bulk, Bool.toNat_true] at hless
    omega

theorem RoundRule.exhausts {rule : Store → Expr → Option Expr} (h : RoundRule rule) (s : Store) :
    Exhausts (rule s) := by
  cases h with
  | cancelReference => exact Exhausts.cancelReference
  | foldConstant => exact Exhausts.foldConstant s
  | chooseBranch => exact Exhausts.chooseBranch s
  | tidyBlock => exact Exhausts.tidyBlock s

theorem pass_again {pass : ProgramM Bool} (h : pass ∈ passes) (hp : p.Settled) :
    Ends pass p fun _ p' => p'.Settled ∧ pass.run p' = .ok (false, p') := by
  obtain rfl | ⟨rule, hrule, rfl⟩ := of_mem_passes h
  · exact removeUnused_again hp
  · exact rewrite_again hp hrule.diminishes hrule.exhausts

/-- Every pass ends and says that it changed the program exactly if it did, the marks of what is
used aside. The same pass a second time says that it changes nothing and leaves the program as it
is, marks included. Nothing in a program is without an owner, and passes keep it so. -/
theorem passes_normalize (p : Program) (hp : p.Settled) :
    ∀ pass ∈ passes, Ends pass p fun changed p' =>
      (changed = true ↔ ¬ p.SameUpToMarks p') ∧ p'.Settled ∧ pass.run p' = .ok (false, p') := by
  intro pass hpass
  obtain ⟨changed, p', hrun, hsettled, hagain⟩ := pass_again hpass hp
  exact ⟨changed, p', hrun, changed_iff_of_pass hpass hp hrun, hsettled, hagain⟩

/-- The removal drops `idle`, says so, and has nothing left to do. -/
theorem passes_normalize_mainAndIdle :
    mainAndIdle.Settled ∧ removeUnused ∈ passes ∧
      Ends removeUnused mainAndIdle fun changed p' => changed = true ∧
        ¬ mainAndIdle.SameUpToMarks p' ∧ removeUnused.run p' = .ok (false, p') := by
  have hsettled : mainAndIdle.Settled := by
    unfold Settled Store.Settled
    decide +kernel
  have hmem : removeUnused ∈ passes := .tail _ (.head _)
  have hchanges : (match removeUnused.run mainAndIdle with
      | .ok (changed, _) => changed
      | .error _ => false) = true := by decide +kernel
  obtain ⟨changed, p', hrun, htruth, -, hagain⟩ :=
    passes_normalize mainAndIdle hsettled removeUnused hmem
  rw [hrun] at hchanges
  obtain rfl : changed = true := hchanges
  exact ⟨hsettled, hmem, true, p', hrun, rfl, htruth.1 rfl, hagain⟩

end Frontend.Program
