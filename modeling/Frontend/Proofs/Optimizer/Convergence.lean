import Frontend.Proofs.Optimizer.Firing
import Frontend.Proofs.Optimizer.Rounds

/-!
# The optimizer converges

The bulk of a program counts its trees, its declarations and what its module has registered. No pass
adds to it, and a pass that says that it changed something takes from it. Without rewriters there are
no more rounds that change something than the program has bulk, and no round reports an error.
-/

namespace Frontend

theorem Store.Marked.bulk {s s' : Store} (h : s.Marked s') : s'.bulk = s.bulk := by
  have hfunctions := h.functions.total_toList (f := fun f => 1 + (f.body.map Expr.bulk).getD 0) <| by
    rintro f _ ⟨_, rfl⟩
    rfl
  have hvars := h.vars.total_toList (f := fun x => 1 + (x.init.map Expr.bulk).getD 0) <| by
    rintro x _ ⟨_, rfl⟩
    rfl
  unfold Store.bulk
  simp only [hfunctions, hvars, h.structs, h.enumerations]

namespace Program

variable {p p₁ p' : Program} {s : Store} {a b : Bool}

theorem rewriters_inStore (h : ∀ m ∈ p.library, (s.module m).rewriters =
      (p.store.module m).rewriters ∧ (s.module m).name = (p.store.module m).name) :
    (p.inStore s).rewriters = p.rewriters := by
  refine List.flatMap_congr fun m hm => ?_
  obtain ⟨hrewriters, hname⟩ := h m hm
  simp only [inStore, hrewriters, hname]

theorem rewriters_collect (p : Program) : p.collect.rewriters = p.rewriters :=
  rewriters_inStore (s := p.collect.store) fun m hm => by
    rw [module_collect hm]
    exact ⟨rfl, rfl⟩

/-- A collection takes a module whole or leaves it as it is. -/
theorem registered_collect_le (p : Program) :
    p.collect.thisModule.registered ≤ p.thisModule.registered := by
  have part := (Store.partOf_collect p.store ({ modules := p.library } ++ p.outside)).modules p.this
  change ((p.collect.store.modules.get? p.this).getD default).registered ≤
    ((p.store.modules.get? p.this).getD default).registered
  cases h : p.collect.store.modules.get? p.this with
  | none => exact Nat.zero_le _
  | some x => exact Nat.le_of_eq (by rw [part x h])

theorem bulk_collect_le (p : Program) : p.collect.bulk ≤ p.bulk :=
  Nat.add_le_add (Store.bulk_collect_le _ _) (registered_collect_le p)

/-- What passes make of a program that say whether they changed it: only the store is another one,
and changes take from the bulk. -/
structure Settles (p : Program) (changed : Bool) (p' : Program) : Prop where
  frame : p' = p.inStore p'.store
  plain : p'.rewriters = p.rewriters
  bulk : p'.bulk + changed.toNat ≤ p.bulk

namespace Settles

theorem refl (p : Program) : p.Settles false p := ⟨rfl, rfl, Nat.le_refl _⟩

theorem trans (h : p.Settles a p₁) (h' : p₁.Settles b p') : p.Settles (a || b) p' where
  frame := by
    rw [h'.frame, h.frame]
    rfl
  plain := h'.plain.trans h.plain
  bulk := by
    have hor : (a || b).toNat ≤ a.toNat + b.toNat := by cases a <;> cases b <;> decide
    have := h.bulk
    have := h'.bulk
    omega

theorem collect (h : p.Settles a p₁) : p.Settles a p₁.collect := by
  have hbulk : p₁.collect.bulk + false.toNat ≤ p₁.bulk := by
    rw [Bool.toNat_false, Nat.add_zero]
    exact bulk_collect_le p₁
  have hcollect : p₁.Settles false p₁.collect := ⟨rfl, rewriters_collect p₁, hbulk⟩
  have := h.trans hcollect
  rwa [Bool.or_false] at this

theorem policies (h : p.Settles a p') : p'.policies = p.policies := by
  rw [h.frame]
  rfl

theorem errors (h : p.Settles a p') : p'.errors = p.errors := by
  rw [h.frame]
  rfl

end Settles

theorem rewrite_settles {rule : Store → Expr → Option Expr} (hR : Diminishes rule) (p : Program) :
    Ends (rewrite rule) p fun changed p' => p.Settles changed p' := by
  refine (rewrite_acts hR p).mono ?_
  rintro changed _ ⟨s, rfl, hmodules, hacts⟩
  have modules (m : ModuleId) : s.module m = p.store.module m := by
    simp only [Store.module, Store.module?, hmodules]
  refine Settles.collect ⟨rfl, rewriters_inStore fun m _ => ?_, ?_⟩
  · rw [modules]
    exact ⟨rfl, rfl⟩
  · have registered : (p.inStore s).thisModule.registered = p.thisModule.registered :=
      congrArg Module.registered (modules p.this)
    have hbulk : s.bulk + changed.toNat ≤ p.store.bulk := by
      rcases hacts with ⟨rfl, -, rfl⟩ | ⟨rfl, -, hlt⟩
      · exact Nat.le_refl _
      · exact hlt
    have htotal : (p.inStore s).bulk = s.bulk + (p.inStore s).thisModule.registered := rfl
    have htotal' : p.bulk = p.store.bulk + p.thisModule.registered := rfl
    omega

/-- What leaves the module counted as registered. -/
theorem dropped_settles {used : List Symbol} {trim : Module → Module} {removed : Bool} {s₁ : Store}
    (hentry : p.store.entryPoints p.thisModule ≠ []) (hs₁ : p.store.Marked s₁)
    (hdrops : p.store.Drops p.this used trim removed) :
    p.Settles removed (p.inStore (s₁.modifyModule p.this trim)) := by
  have hmodule := module_trimmed hentry hs₁ trim
  refine ⟨rfl, rewriters_inStore fun m _ => ?_, ?_⟩
  · by_cases hm : m = p.this
    · have hrest := hdrops.trimmed.rest
      rw [hm, hmodule, thisModule, hrest]
      exact ⟨rfl, rfl⟩
    · have other : (s₁.modifyModule p.this trim).module m = s₁.module m := by
        simp only [Store.module, Store.module?, Store.modifyModule, Table.get?_modify, if_neg hm]
      rw [other, hs₁.module]
      exact ⟨rfl, rfl⟩
  · have hstore : (s₁.modifyModule p.this trim).bulk = p.store.bulk := hs₁.bulk
    have hregistered : (trim p.thisModule).registered + removed.toNat ≤
        p.thisModule.registered := by
      cases hremoved : removed with
      | false =>
        rw [hdrops.idle hremoved]
        exact Nat.le_refl _
      | true => exact hdrops.trimmed.registered_lt (hdrops.removed_iff.1 hremoved)
    have htotal : (p.inStore (s₁.modifyModule p.this trim)).bulk =
        (s₁.modifyModule p.this trim).bulk +
          ((s₁.modifyModule p.this trim).module p.this).registered := rfl
    have htotal' : p.bulk = p.store.bulk + p.thisModule.registered := rfl
    rw [hmodule] at htotal
    omega

theorem removeUnused_settles (p : Program) :
    Ends removeUnused p fun changed p' => p.Settles changed p' := by
  have hget : (get : ProgramM Program).run p = .ok (p, p) := rfl
  have clean {removed : Bool} {s : Store} (hdrop : p.store.dropUnused p.this = .ok (removed, s))
      (hs : p.Settles removed (p.inStore s)) :
      Ends removeUnused p fun changed p' => p.Settles changed p' := by
    refine .bind_run hget ?_
    rw [hdrop]
    refine .bind_run (a := ()) rfl (.bind (rewrite_settles .cleanBlock _) ?_)
    intro changed p' hp'
    exact .pure (hs.collect.trans hp')
  by_cases hentry : p.store.entryPoints p.thisModule = []
  · exact clean (Store.dropUnused_of_no_entry hentry) (.refl p)
  · obtain ⟨used, trim, removed, _, hdrops, hrun⟩ := Store.dropUnused_run hentry
    exact clean hrun (dropped_settles hentry (Store.marked_foldl used (.refl _)) hdrops)

theorem RoundRule.diminishes {rule : Store → Expr → Option Expr} (h : RoundRule rule) :
    Diminishes rule := by
  cases h with
  | cancelReference => exact .cancelReference
  | foldConstant => exact .foldConstant
  | chooseBranch => exact .chooseBranch
  | tidyBlock => exact .tidyBlock

theorem settles_of_pass {pass : ProgramM Bool} (h : pass ∈ passes) (p : Program) :
    Ends pass p fun changed p' => p.Settles changed p' := by
  obtain rfl | ⟨rule, hrule, rfl⟩ := of_mem_passes h
  · exact removeUnused_settles p
  · exact rewrite_settles hrule.diminishes p

theorem runPasses_settles {l : List (ProgramM Bool)} (hl : ∀ pass ∈ l, pass ∈ passes)
    (changed : Bool) (p : Program) :
    Ends (runPasses l changed) p fun progress p' => ∃ now, p.Settles now p' ∧
      (progress = .going (changed || now) ∨ progress = .halted ∧ p'.failed = true) := by
  induction l generalizing p changed with
  | nil => exact .pure ⟨false, .refl p, .inl (by rw [Bool.or_false])⟩
  | cons pass rest ih =>
    refine .bind (settles_of_pass (hl pass (.head _)) p) ?_
    intro now p₁ h₁
    have hget : (get : ProgramM Program).run p₁ = .ok (p₁, p₁) := rfl
    refine .bind_run hget ?_
    split
    · rename_i hfailed
      exact .pure ⟨now, h₁, .inr ⟨rfl, hfailed⟩⟩
    · refine (ih (fun pass hpass => hl pass (.tail _ hpass)) (changed || now) p₁).mono ?_
      rintro progress p₂ ⟨next, h₂, hprogress⟩
      refine ⟨now || next, h₁.trans h₂, ?_⟩
      rwa [Bool.or_assoc] at hprogress

/-- Without rewriters a round is a run of the passes. -/
theorem round_run (hplain : p.rewriters = []) : round.run p = (runPasses passes false).run p := by
  obtain ⟨progress, p₁, hrun, _, h₁, _⟩ := runPasses_settles (fun _ hpass => hpass) false p
  unfold round
  rw [StateT.run_bind, hrun]
  cases progress with
  | halted => rfl
  | going changed =>
    have hget : (get : ProgramM Program).run p₁ = .ok (p₁, p₁) := rfl
    change (get >>= fun p => applyRewriters p.rewriters changed : ProgramM Progress).run p₁ = _
    rw [StateT.run_bind, hget]
    change (applyRewriters p₁.rewriters changed).run p₁ = _
    rw [h₁.plain, hplain]
    rfl

theorem round_settles (hplain : p.rewriters = []) :
    Ends round p fun progress p' => ∃ now, p.Settles now p' ∧
      (progress = .going now ∨ progress = .halted ∧ p'.failed = true) := by
  unfold Ends
  rw [round_run hplain]
  exact runPasses_settles (fun _ hpass => hpass) false p

/-- Every round but the last one takes from the bulk. -/
theorem runRounds_settles (fuel rounds : Nat) (hplain : p.rewriters = []) (hfuel : p.bulk < fuel)
    (hcap : ∀ k, p.policies.maxPasses? = some k → rounds + p.bulk < k) :
    Ends (runRounds fuel rounds) p fun _ p' => ∃ changed, p.Settles changed p' := by
  induction fuel generalizing rounds p with
  | zero => omega
  | succ fuel ih =>
    have hlimit : ¬ p.policies.maxPasses?.any (· ≤ rounds) = true := by
      cases hk : p.policies.maxPasses? with
      | none => exact Bool.false_ne_true
      | some k =>
        have := hcap k hk
        simp only [Option.any_some, decide_eq_true_eq]
        omega
    obtain ⟨progress, p₁, hround, now, h₁, hprogress⟩ := round_settles hplain
    unfold Ends
    rw [runRounds_round hlimit hround]
    split
    · rename_i hgoing
      have hnow : now = true := by
        rcases hprogress with rfl | ⟨rfl, _⟩
        · exact Progress.going.inj hgoing
        · cases hgoing
      have hless := h₁.bulk
      rw [hnow, Bool.toNat_true] at hless
      have hcap₁ : ∀ k, p₁.policies.maxPasses? = some k → rounds + 1 + p₁.bulk < k := by
        intro k hk
        rw [h₁.policies] at hk
        have := hcap k hk
        omega
      refine Ends.mono (ih (rounds + 1) (h₁.plain.trans hplain) (by omega) hcap₁) ?_
      rintro _ p' ⟨changed, h₂⟩
      exact ⟨now || changed, h₁.trans h₂⟩
    · exact ⟨(), p₁, rfl, now, h₁⟩

theorem optimize_settles (hplain : p.rewriters = [])
    (hcap : ∀ k, p.policies.maxPasses? = some k → p.bulk < k) :
    Ends optimize p fun _ p' => ∃ changed, p.Settles changed p' := by
  by_cases hon : p.options.getBool "optimize" p.policies.optimize = true
  · have hfuel : p.bulk < (p.policies.maxPasses?.map (· + 1)).getD p.roundsNeeded := by
      cases hk : p.policies.maxPasses? with
      | none =>
        simp only [Option.map_none, Option.getD_none, roundsNeeded]
        omega
      | some k =>
        have := hcap k hk
        simp only [Option.map_some, Option.getD_some]
        omega
    have hcap₀ : ∀ k, p.policies.maxPasses? = some k → 0 + p.bulk < k := by
      intro k hk
      have := hcap k hk
      omega
    unfold Ends
    rw [optimize_run hon]
    exact runRounds_settles _ 0 hplain hfuel hcap₀
  · exact ⟨(), p, optimize_off hon, false, .refl p⟩

/-- Without rewriters the optimizer always ends, and neither it nor its limit on the rounds reports
an error, as long as the limit is above the bulk of the program. -/
theorem optimize_converges (p : Program) (hplain : p.rewriters = [])
    (hcap : ∀ k, p.policies.maxPasses? = some k → p.bulk < k) :
    Ends optimize p fun _ p' => p'.errors = p.errors ∧ p'.bulk ≤ p.bulk := by
  refine (optimize_settles hplain hcap).mono ?_
  rintro _ p' ⟨changed, h⟩
  have := h.bulk
  exact ⟨h.errors, by omega⟩

theorem plain_mainAndIdle : mainAndIdle.rewriters = [] := by decide

theorem bulk_mainAndIdle :
    ∀ k, mainAndIdle.policies.maxPasses? = some k → mainAndIdle.bulk < k := by
  intro k hk
  obtain rfl : 1000 = k := Option.some.inj hk
  decide

/-- A round drops the function `idle` of this program and the next one ends. -/
theorem optimize_converges_mainAndIdle :
    mainAndIdle.rewriters = [] ∧ (∀ k, mainAndIdle.policies.maxPasses? = some k →
      mainAndIdle.bulk < k) ∧ Ends optimize mainAndIdle fun _ p' => p'.errors = [] :=
  ⟨plain_mainAndIdle, bulk_mainAndIdle,
    (optimize_converges mainAndIdle plain_mainAndIdle bulk_mainAndIdle).mono fun _ _ h => h.1⟩

end Program

end Frontend
