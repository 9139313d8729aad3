import Frontend.Optimizer.Rounds
import Frontend.Proofs.Optimizer.Unused

/-!
# What the optimizer keeps

Without rewriters a round is a run of the passes. What every pass keeps, and what does not depend on
the errors, the optimizer keeps. With a limit on the rounds it always ends.
-/

namespace Frontend.Program

inductive RoundRule : (Store → Expr → Option Expr) → Prop
  | cancelReference : RoundRule fun _ => Expr.cancelReference?
  | foldConstant : RoundRule Store.foldConstant?
  | chooseBranch : RoundRule Store.chooseBranch?
  | tidyBlock : RoundRule Store.tidyBlock?

/-- A pass removes what is unused, or it applies a rule. -/
theorem of_mem_passes {pass : ProgramM Bool} (h : pass ∈ passes) :
    pass = removeUnused ∨ ∃ rule, RoundRule rule ∧ pass = rewrite rule := by
  simp only [passes, List.mem_cons, List.not_mem_nil, or_false] at h
  rcases h with rfl | rfl | rfl | rfl | rfl | rfl
  · exact .inr ⟨_, .cancelReference, rfl⟩
  · exact .inl rfl
  · exact .inr ⟨_, .foldConstant, rfl⟩
  · exact .inr ⟨_, .chooseBranch, rfl⟩
  · exact .inr ⟨_, .tidyBlock, rfl⟩
  · exact .inl rfl

section Runs

variable {p p₁ : Program}

theorem runPasses_cons {pass : ProgramM Bool} {now : Bool} (h : pass.run p = .ok (now, p₁))
    (rest : List (ProgramM Bool)) (changed : Bool) :
    (runPasses (pass :: rest) changed).run p =
      (if p₁.failed then pure .halted else runPasses rest (changed || now) :
        ProgramM Progress).run p₁ := by
  have hget : (get : ProgramM Program).run p₁ = .ok (p₁, p₁) := rfl
  rw [runPasses, StateT.run_bind, h]
  change (get >>= fun p => if p.failed = true then _ else _ : ProgramM Progress).run p₁ = _
  rw [StateT.run_bind, hget]
  rfl

theorem runRounds_limit {fuel rounds : Nat} (h : p.policies.maxPasses?.any (· ≤ rounds) = true) :
    (runRounds (fuel + 1) rounds).run p = .ok ((), p.reportAt (.didNotConverge rounds) .builtin) := by
  have hget : (get : ProgramM Program).run p = .ok (p, p) := rfl
  rw [runRounds]
  simp only [StateT.run_bind, hget]
  change ((if p.policies.maxPasses?.any (· ≤ rounds) = true then _ else _ :
    ProgramM Unit)).run p = _
  rw [if_pos h]
  rfl

/-- Within the limit there is a round, and another one if it changed something. -/
theorem runRounds_round {fuel rounds : Nat} {progress : Progress}
    (h : ¬ p.policies.maxPasses?.any (· ≤ rounds) = true)
    (hround : round.run p = .ok (progress, p₁)) :
    (runRounds (fuel + 1) rounds).run p =
      (if progress = .going true then runRounds fuel (rounds + 1) else pure ()).run p₁ := by
  have hget : (get : ProgramM Program).run p = .ok (p, p) := rfl
  rw [runRounds]
  simp only [StateT.run_bind, hget]
  change ((if p.policies.maxPasses?.any (· ≤ rounds) = true then _ else _ :
    ProgramM Unit)).run p = _
  rw [if_neg h, StateT.run_bind, hround]
  cases progress with
  | halted => rfl
  | going changed => cases changed <;> rfl

theorem optimize_run (h : p.options.getBool "optimize" p.policies.optimize = true) :
    optimize.run p =
      (runRounds ((p.policies.maxPasses?.map (· + 1)).getD p.roundsNeeded) 0).run p := by
  have hget : (get : ProgramM Program).run p = .ok (p, p) := rfl
  rw [optimize]
  simp only [StateT.run_bind, hget]
  change (if p.options.getBool "optimize" p.policies.optimize = true then _ else _ :
    ProgramM Unit).run p = _
  rw [if_pos h]

theorem optimize_off (h : ¬ p.options.getBool "optimize" p.policies.optimize = true) :
    optimize.run p = .ok ((), p) := by
  have hget : (get : ProgramM Program).run p = .ok (p, p) := rfl
  rw [optimize]
  simp only [StateT.run_bind, hget]
  change (if p.options.getBool "optimize" p.policies.optimize = true then _ else _ :
    ProgramM Unit).run p = _
  rw [if_neg h]
  rfl

end Runs

/-- A property of programs without rewriters that every pass keeps and errors do not touch. -/
structure Upheld (I : Program → Prop) : Prop where
  pass : ∀ pass ∈ passes, ∀ p, I p → Ends pass p fun _ p' => I p' ∧ p'.policies = p.policies
  report : ∀ p e, I p → I (p.report e)
  plain : ∀ p, I p → p.rewriters = []

variable {I : Program → Prop} (h : Upheld I) {p : Program}

include h

theorem runPasses_ends {l : List (ProgramM Bool)} (hl : ∀ pass ∈ l, pass ∈ passes) (changed : Bool)
    (hp : I p) : Ends (runPasses l changed) p fun _ p' => I p' ∧ p'.policies = p.policies := by
  induction l generalizing p changed with
  | nil => exact .pure ⟨hp, rfl⟩
  | cons pass rest ih =>
    refine .bind (h.pass pass (hl pass (.head _)) p hp) ?_
    rintro now p₁ ⟨hp₁, hpol⟩
    have hget : (get : ProgramM Program).run p₁ = .ok (p₁, p₁) := rfl
    refine .bind_run hget ?_
    split
    · exact .pure ⟨hp₁, hpol⟩
    · refine (ih (fun pass hpass => hl pass (.tail _ hpass)) (changed || now) hp₁).mono ?_
      rintro _ p₂ ⟨hp₂, hpol₂⟩
      exact ⟨hp₂, hpol₂.trans hpol⟩

theorem round_ends (hp : I p) : Ends round p fun _ p' => I p' ∧ p'.policies = p.policies := by
  refine .bind (runPasses_ends h (fun _ hpass => hpass) false hp) fun progress p₁ hp₁ => ?_
  cases progress with
  | halted => exact .pure hp₁
  | going changed =>
    have hget : (get : ProgramM Program).run p₁ = .ok (p₁, p₁) := rfl
    refine .bind_run hget ?_
    rw [h.plain p₁ hp₁.1]
    exact .pure hp₁

/-- Rounds end within a limit. Without one they may use up what they were given. -/
theorem runRounds_ends (fuel rounds : Nat) (hp : I p)
    (hl : ∀ k, p.policies.maxPasses? = some k → rounds ≤ k ∧ k < fuel + rounds) :
    ((runRounds fuel rounds).run p = .error .endless ∧ p.policies.maxPasses? = none) ∨
      Ends (runRounds fuel rounds) p fun _ p' => I p' := by
  induction fuel generalizing rounds p with
  | zero =>
    refine .inl ⟨rfl, ?_⟩
    cases hk : p.policies.maxPasses? with
    | none => rfl
    | some k =>
      have := hl k hk
      omega
  | succ fuel ih =>
    by_cases hlimit : p.policies.maxPasses?.any (· ≤ rounds) = true
    · exact .inr ⟨(), _, runRounds_limit hlimit, h.report p _ hp⟩
    · obtain ⟨progress, p₁, hround, hp₁, hpol⟩ := round_ends h hp
      have hl' : ∀ k, p₁.policies.maxPasses? = some k →
          rounds + 1 ≤ k ∧ k < fuel + (rounds + 1) := by
        intro k hk
        rw [hpol] at hk
        have := hl k hk
        rw [hk] at hlimit
        simp only [Option.any_some, decide_eq_true_eq] at hlimit
        omega
      unfold Ends
      rw [runRounds_round hlimit hround, ← hpol]
      split
      · exact ih (rounds + 1) hp₁ hl'
      · exact .inr ⟨(), p₁, rfl, hp₁⟩

/-- The optimizer keeps the property. Only without a limit it might not end. -/
theorem optimize_ends (hp : I p) :
    (optimize.run p = .error .endless ∧ p.policies.maxPasses? = none) ∨
      Ends optimize p fun _ p' => I p' := by
  by_cases hon : p.options.getBool "optimize" p.policies.optimize = true
  · unfold Ends
    rw [optimize_run hon]
    refine runRounds_ends h _ 0 hp fun k hk => ?_
    rw [hk]
    exact ⟨Nat.zero_le k, Nat.lt_succ_self k⟩
  · exact .inr ⟨(), p, optimize_off hon, hp⟩

end Frontend.Program
