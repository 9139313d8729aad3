import Frontend.Proofs.Optimizer.Fixpoint

/-!
# What the optimizer does to a failed program

Rounds look at their limit before anything else, and for errors only after a pass. So the optimizer
does not leave a failed program alone: a limit of no rounds is one more error, and where the limit
allows a round, its first pass still folds references. Nothing else happens.
-/

namespace Frontend.Program

variable {p p₁ : Program}

def IsOptimized (p : Program) : Prop :=
  p.options.getBool "optimize" p.policies.optimize = true

def AllowsNoRound (p : Program) : Prop := p.policies.maxPasses? = some 0

/-- There is a reference in the program that goes through a pointer and back, or that of a
literal. -/
abbrev HasIdleReferences (p : Program) : Prop := p.Fires fun _ => Expr.cancelReference?

/-- A pass that leaves a failed program is the last one of its round. -/
theorem runPasses_failed {pass : ProgramM Bool} {now : Bool} (h : pass.run p = .ok (now, p₁))
    (hfailed : p₁.failed = true) (rest : List (ProgramM Bool)) (changed : Bool) :
    (runPasses (pass :: rest) changed).run p = .ok (.halted, p₁) := by
  rw [runPasses_cons h, if_pos hfailed]
  rfl

/-- A round of a failed program is its first pass. -/
theorem round_failed {now : Bool} (h : foldReferences.run p = .ok (now, p₁))
    (hfailed : p₁.failed = true) : round.run p = .ok (.halted, p₁) := by
  have hpasses : (runPasses passes false).run p = .ok (.halted, p₁) :=
    runPasses_failed h hfailed _ false
  rw [round, StateT.run_bind, hpasses]
  rfl

/-- There is fuel for a first look at the limit. -/
theorem exists_fuel (p : Program) :
    ∃ fuel, (p.policies.maxPasses?.map (· + 1)).getD p.roundsNeeded = fuel + 1 := by
  cases p.policies.maxPasses? with
  | none => exact ⟨_, rfl⟩
  | some k => exact ⟨k, rfl⟩

theorem limit_zero_iff : p.policies.maxPasses?.any (· ≤ 0) = true ↔ p.AllowsNoRound := by
  unfold AllowsNoRound
  cases p.policies.maxPasses? with
  | none => exact iff_of_false Bool.false_ne_true nofun
  | some k => simp

theorem optimize_of_no_round (hon : p.IsOptimized) (h : p.AllowsNoRound) :
    optimize.run p = .ok ((), p.reportAt (.didNotConverge 0) .builtin) := by
  obtain ⟨fuel, hfuel⟩ := p.exists_fuel
  rw [optimize_run hon, hfuel, runRounds_limit (limit_zero_iff.2 h)]

theorem optimize_of_first_pass {now : Bool} (hon : p.IsOptimized) (h : ¬ p.AllowsNoRound)
    (hrun : foldReferences.run p = .ok (now, p₁)) (hfailed : p₁.failed = true) :
    optimize.run p = .ok ((), p₁) := by
  obtain ⟨fuel, hfuel⟩ := p.exists_fuel
  have hround := round_failed hrun hfailed
  rw [optimize_run hon, hfuel, runRounds_round (limit_zero_iff.not.2 h) hround]
  rfl

/-- References are folded exactly if there are any, and that changes nothing but the store. -/
theorem foldReferences_ends (hp : p.Settled) :
    Ends foldReferences p fun _ p' => p' = p.inStore p'.store ∧
      (p'.store = p.store ↔ ¬ p.HasIdleReferences) := by
  refine (rewrite_acts .cancelReference p).mono ?_
  rintro changed p' ⟨s, rfl, -, hacts⟩
  refine ⟨rfl, ?_⟩
  rcases hacts with ⟨-, hno, rfl⟩ | ⟨-, hyes, hless⟩
  · have hsame : (p.inStore p.store).collect = p := hp.collect_eq
    rw [hsame]
    exact iff_of_true rfl hno
  · refine iff_of_false (fun hsame => ?_) (not_not_intro hyes)
    have hle : (p.inStore s).collect.store.bulk ≤ s.bulk := Store.bulk_collect_le _ _
    rw [hsame] at hle
    omega

/-- A failed program gets one more error exactly if it allows no round, and its trees and
declarations change exactly if it allows one and has references to fold. -/
theorem optimize_failed_iff (p : Program) (hp : p.Settled) (hfailed : p.failed = true) :
    Ends optimize p fun _ p' => p' = { p with store := p'.store, errors := p'.errors } ∧
      (p'.errors = p.errors ↔ ¬ (p.IsOptimized ∧ p.AllowsNoRound)) ∧
      (p'.store = p.store ↔ ¬ (p.IsOptimized ∧ ¬ p.AllowsNoRound ∧ p.HasIdleReferences)) := by
  have hframe (p' : Program) (h : p' = p.inStore p'.store) :
      p' = { p with store := p'.store, errors := p'.errors } := by
    rw [h]
    rfl
  by_cases hon : p.IsOptimized
  · by_cases hnone : p.AllowsNoRound
    · refine ⟨(), _, optimize_of_no_round hon hnone, ?_, ?_, ?_⟩
      · unfold failed at hfailed
        simp only [reportAt, report, hfailed]
      · refine iff_of_false (fun h => ?_) (not_not_intro ⟨hon, hnone⟩)
        simp [reportAt, report] at h
      · exact iff_of_true rfl fun h => h.2.1 hnone
    · obtain ⟨now, p', hrun, hstore, hfold⟩ := foldReferences_ends hp
      have hfailed' : p'.failed = true := by
        rw [hstore]
        exact hfailed
      refine ⟨(), p', optimize_of_first_pass hon hnone hrun hfailed', hframe p' hstore, ?_, ?_⟩
      · rw [hstore]
        exact iff_of_true rfl fun h => hnone h.2
      · rw [hfold]
        exact not_congr (by simp [hon, hnone])
  · refine ⟨(), p, optimize_off hon, rfl, ?_, ?_⟩
    · exact iff_of_true rfl fun h => hon h.1
    · exact iff_of_true rfl fun h => hon h.1

section Samples

def broken (p : Program) : Program := p.reportMessage "broken" "" "" .builtin .unspecified

theorem not_hasIdleReferences_mainAndIdle : ¬ mainAndIdle.broken.HasIdleReferences := by
  have bare : ∀ id ∈ [(⟨1⟩ : FunctionId), ⟨0⟩], ∃ name exports,
      mainAndIdle.store.function? id = some { name, exports } := by
    intro id hid
    rcases List.mem_pair.1 hid with rfl | rfl
    · exact ⟨_, _, rfl⟩
    · exact ⟨_, _, rfl⟩
  rintro (⟨_, hid, _⟩ | ⟨_, hid, _⟩ | ⟨_, hid, _⟩ | ⟨_, hid, _⟩ | ⟨id, hid, _, f, hf, hin⟩)
  · cases hid
  · cases hid
  · cases hid
  · cases hid
  · obtain ⟨name, exports, hbare⟩ := bare id hid
    cases hbare.symm.trans hf
    rcases hin with ⟨_, ha, _⟩ | ⟨_, hb, _⟩
    · cases ha
    · cases hb

/-- After an error the function `idle` stays where it is. -/
theorem optimize_failed_iff_mainAndIdle :
    mainAndIdle.broken.Settled ∧ mainAndIdle.broken.failed = true ∧
      Ends optimize mainAndIdle.broken fun _ p' => p'.store = mainAndIdle.store := by
  have hsettled : mainAndIdle.broken.Settled := by
    unfold Settled Store.Settled
    decide +kernel
  refine ⟨hsettled, rfl, (optimize_failed_iff _ hsettled rfl).mono ?_⟩
  rintro _ p' ⟨-, -, hstore⟩
  exact hstore.2 fun h => not_hasIdleReferences_mainAndIdle h.2.2

/-- A function that takes the address of a variable and follows it, after an error. -/
def addressFollowed : Program where
  store :=
    { functions := { slots := #[some
        { name := "f"
          body := some (.ofNode .builtin (.convert .pointerToRef
            (.ofNode .builtin (.convert .refToPointer
              (.ofNode .builtin (.var { name := "x" })))))) }] }
      modules := { slots := #[some { name := "", functions := .ofList [("@f", ⟨0⟩)] }] } }
  library := [⟨0⟩]
  this := ⟨0⟩

/-- Both ways in which the optimizer does not leave a failed program alone. -/
theorem optimize_failed_changes :
    addressFollowed.broken.failed = true ∧
      (Ends optimize addressFollowed.broken fun _ p' => p'.bulk < addressFollowed.broken.bulk) ∧
      Ends optimize { addressFollowed.broken with policies := { maxPasses? := some 0 } } fun _ p' =>
        p'.errors ≠ addressFollowed.broken.errors := by
  decide +kernel

end Samples

end Frontend.Program
