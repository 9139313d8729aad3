import Frontend.Proofs.Copying.Growth
import Frontend.Proofs.Registration.Replacing
import Frontend.Script.Visitor

/-!
# Scripts and registries

A script touches the store only where it puts in a tree: it puts in a copy, and copies bring new
variables. So its visitor leaves names, stamps and registries alone, and the structures and
enumerations that it answers with are those of its rules.
-/

namespace Frontend

theorem Store.KeepsRegistry.of_varsOnly {s t : Store} {m : ModuleId} (h : s.VarsOnly t) :
    s.KeepsRegistry m t := by
  rw [h]
  exact ⟨rfl, .refl _ s.structs, .refl _ s.enumerations⟩

section Hooks

variable {m : ModuleId} {α β : Type} (script : Script)

abbrev LeavesRegistry (m : ModuleId) (work : VisitM ScriptState α) : Prop :=
  Moves (Visit.KeepsRegistry m) work

namespace LeavesRegistry

theorem pure (a : α) : LeavesRegistry m (Pure.pure a) := by
  intro st _ st' h
  cases h
  exact .refl m _

theorem bind {work : VisitM ScriptState α} {f : α → VisitM ScriptState β}
    (hwork : LeavesRegistry m work) (hf : ∀ a, LeavesRegistry m (f a)) :
    LeavesRegistry m (work >>= f) := by
  intro st b st' h
  obtain ⟨a, st₁, ha, h⟩ := exists_of_bind h
  exact Store.KeepsRegistry.trans (hwork _ _ _ ha) (hf a _ _ _ h)

theorem store : LeavesRegistry m VisitM.store := by
  intro st _ st' h
  cases h
  exact .refl m _

theorem modifyUser (f : ScriptState → ScriptState) : LeavesRegistry m (VisitM.modifyUser f) := by
  intro st _ st' h
  cases h
  exact .refl m _

theorem freshCopy (e : Expr) : LeavesRegistry m (Script.freshCopy e) := by
  intro st e' st' h
  obtain ⟨s, st₁, hs, h⟩ := exists_of_bind h
  cases hs
  cases hcopy : st.store.copyExpr e with
  | error fault =>
    rw [hcopy] at h
    cases h
  | ok r =>
    rw [hcopy] at h
    cases h
    exact .of_varsOnly (addsVars_copyExpr hcopy).rest

theorem note (hook what : String) : LeavesRegistry m (script.note hook what) := modifyUser _

theorem answer (hook what : String) : LeavesRegistry m (script.answer hook what) := by
  refine bind (note script hook what) fun _ => bind ?_ fun state => ?_
  · intro st _ st' h
    cases h
    exact .refl m _
  · split
    · exact pure _
    · exact bind (modifyUser _) fun _ => pure _

theorem answerExpr (hook what : String) : LeavesRegistry m (script.answerExpr hook what) := by
  refine bind (answer script hook what) fun action => ?_
  split
  · exact pure _
  · exact bind (freshCopy _) fun _ => pure _
  · exact pure _

theorem answerField (hook what : String) : LeavesRegistry m (script.answerField hook what) := by
  refine bind (answer script hook what) fun action => ?_
  split
  · exact pure _
  · exact bind (freshCopy _) fun _ => pure _
  · exact pure _

theorem answerVariable (hook what : String) :
    LeavesRegistry m (script.answerVariable hook what) := by
  refine bind (answer script hook what) fun action => ?_
  split <;> exact pure _

theorem leaveNode (e : Expr) : LeavesRegistry m (script.leaveNode e) := by
  refine bind store fun s => ?_
  dsimp only
  split
  · refine bind (answerExpr script _ _) fun r => ?_
    split
    · exact answerExpr script _ _
    · exact pure _
  · exact answerExpr script _ _

theorem genericVisitor :
    script.genericVisitor.MovesAlong (Visit.KeepsRegistry m) where
  refl st := .refl m st.store
  trans h h' := Store.KeepsRegistry.trans h h'
  modifyVariable _ id g := .modifyVariable id g
  enter _ := bind store fun _ => bind (note script _ _) fun _ => pure _
  leave _ := bind store fun _ => answerExpr script _ _
  enterSlot _ _ := pure _
  leaveSlot _ _ := pure _
  enterField _ _ := pure _
  leaveField _ _ := pure _
  enterVariable _ _ _ := pure _
  leaveVariable _ _ _ := pure _
  enterType _ := pure _
  leaveType _ := pure _
  leaveStruct _ := pure _
  leaveEnum _ := pure _
  leaveFunction _ := pure _
  allows _ := pure _
  notice _ := pure _

theorem detailedVisitor :
    script.detailedVisitor.MovesAlong (Visit.KeepsRegistry m) where
  refl st := .refl m st.store
  trans h h' := Store.KeepsRegistry.trans h h'
  modifyVariable _ id g := .modifyVariable id g
  enter _ := by
    refine bind store fun _ => bind (note script _ _) fun _ => ?_
    split
    · exact bind (note script _ _) fun _ => pure _
    · exact pure _
  leave e := leaveNode script e
  enterSlot _ _ := bind store fun _ => note script _ _
  leaveSlot _ _ := bind store fun _ => answerExpr script _ _
  enterField _ _ := note script _ _
  leaveField _ _ := answerField script _ _
  enterVariable _ _ _ := bind store fun _ => note script _ _
  leaveVariable _ _ _ := bind store fun _ => answerVariable script _ _
  enterType _ := bind store fun _ => bind (note script _ _) fun _ => pure _
  leaveType _ := by
    refine bind store fun _ => bind (answer script _ _) fun _ => ?_
    split <;> exact pure _
  leaveStruct _ := by
    refine bind store fun _ => bind (answer script _ _) fun _ => ?_
    split <;> exact pure _
  leaveEnum _ := by
    refine bind store fun _ => bind (answer script _ _) fun _ => ?_
    split <;> exact pure _
  leaveFunction _ := by
    refine bind store fun _ => bind (answer script _ _) fun _ => ?_
    split <;> exact pure _
  allows _ := bind store fun _ => bind (note script _ _) fun _ => pure _
  notice _ := bind store fun _ => note script _ _

end LeavesRegistry

end Hooks

namespace Script

variable {script : Script} {hook what : String} {action : RuleAction}

theorem mem_of_firstMatch {rules : List Rule} {counts counts' : List Nat}
    (h : firstMatch hook what rules counts = some (action, counts')) :
    ∃ r ∈ rules, r.hook = hook ∧ r.action = action := by
  induction rules generalizing counts counts' with
  | nil => cases h
  | cons r rules ih =>
    simp only [firstMatch] at h
    split at h
    · rename_i hmatches
      cases h
      simp only [Rule.matches, Bool.and_eq_true, beq_iff_eq] at hmatches
      exact ⟨r, .head _, hmatches.1.1, rfl⟩
    · obtain ⟨⟨action', rest⟩, hfirst, heq⟩ := Option.map_eq_some_iff.1 h
      cases heq
      obtain ⟨r', hr', hrule⟩ := ih hfirst
      exact ⟨r', .tail _ hr', hrule⟩

theorem mem_of_answer {st st' : Visit ScriptState}
    (h : (script.answer hook what).run st = .ok (some action, st')) :
    ∃ r ∈ script.rules, r.hook = hook ∧ r.action = action := by
  obtain ⟨_, st₁, -, h⟩ := exists_of_bind h
  obtain ⟨state, st₂, hstate, h⟩ := exists_of_bind h
  cases hfirst : firstMatch hook what script.rules state.counts with
  | none =>
    rw [hfirst] at h
    cases h
  | some found =>
    rw [hfirst] at h
    cases h
    exact mem_of_firstMatch hfirst

/-- A script replaces structures and enumerations if its rules have existing ones to put in, and no
rule removes an enumeration. -/
theorem replaces_visitor (script : Script) (m : ModuleId) (s : Store)
    (hstruct : ∀ r ∈ script.rules, ∀ id, r.action = .struct id → (s.struct? id).isSome = true)
    (henum : ∀ r ∈ script.rules, ∀ id, r.action = .enumeration id →
      (s.enumeration? id).isSome = true)
    (hremove : ∀ r ∈ script.rules, r.hook = "visit_enumeration" → r.action ≠ .remove) :
    script.visitor.Replaces m s := by
  unfold visitor
  split
  · refine ⟨LeavesRegistry.genericVisitor script, fun _ h => ?_, fun _ h => ?_, fun h => ?_⟩
    · cases h
    · cases h
    · cases h
      nofun
  · have hmoves : script.detailedVisitor.MovesAlong (Visit.KeepsRegistry m) :=
      LeavesRegistry.detailedVisitor script
    refine ⟨hmoves, fun {id st new st'} hs h => ?_, fun {id st new st'} hs h => ?_,
      fun {id st r st'} h => ?_⟩
    · have hkept : s.KeepsMarks st'.store := hs.trans (hmoves.leaveStruct _ _ _ _ h).marks
      obtain ⟨_, st₁, -, h⟩ := exists_of_bind h
      obtain ⟨action, st₂, hanswer, h⟩ := exists_of_bind h
      split at h <;> cases h
      obtain ⟨r, hr, -, haction⟩ := mem_of_answer hanswer
      exact hkept.structs.isSome (hstruct r hr _ haction)
    · have hkept : s.KeepsMarks st'.store := hs.trans (hmoves.leaveEnum _ _ _ _ h).marks
      obtain ⟨_, st₁, -, h⟩ := exists_of_bind h
      obtain ⟨action, st₂, hanswer, h⟩ := exists_of_bind h
      split at h <;> cases h
      obtain ⟨r, hr, -, haction⟩ := mem_of_answer hanswer
      exact hkept.enumerations.isSome (henum r hr _ haction)
    · obtain ⟨_, st₁, -, h⟩ := exists_of_bind h
      obtain ⟨action, st₂, hanswer, h⟩ := exists_of_bind h
      split at h <;> cases h
      · obtain ⟨r, hr, hhook, haction⟩ := mem_of_answer hanswer
        exact absurd haction (hremove r hr hhook)
      · nofun
      · nofun

end Script

end Frontend
