import Frontend.Proofs.Optimizer.Convergence
import Frontend.Proofs.Optimizer.Idle

/-!
# What the optimizer makes is a fixed point

Rounds end with one in which every pass said that it changed nothing. The first pass of that round
drops what nothing owns, the second one may mark what is used, and the other four leave the program
as it is. So the program at the end is one that the last four passes have seen; the first two find
no more in it than they found before.
-/

namespace Frontend.Program

variable {p p₁ p' q : Program} {rule : Store → Expr → Option Expr}

/-- Everything in the program is owned. -/
abbrev Settled (p : Program) : Prop := p.store.Settled ({ modules := p.library } ++ p.outside)

theorem Settled.collect_eq (h : p.Settled) : p.collect = p := by
  have : p.store.collect ({ modules := p.library } ++ p.outside) = p.store := Store.Settled.collect h
  unfold collect
  rw [this]

theorem settled_collect (p : Program) : p.collect.Settled := Store.settled_collect _ _

/-- A pass that said that it changed nothing only collected, as its rule applied nowhere. -/
theorem rewrite_unchanged (hR : Diminishes rule) (h : (rewrite rule).run p = .ok (false, p')) :
    ¬ p.Fires rule ∧ p' = p.collect := by
  obtain ⟨s, rfl, _, hacts⟩ := (rewrite_acts hR p).of_run h
  rcases hacts with ⟨_, hno, rfl⟩ | ⟨hchanged, _⟩
  · exact ⟨hno, rfl⟩
  · cases hchanged

theorem rewrite_idle (hR : Diminishes rule) (hno : ¬ p.Fires rule) :
    (rewrite rule).run p = .ok (false, p.collect) := by
  obtain ⟨changed, p', hrun, s, rfl, _, hacts⟩ := rewrite_acts hR p
  rcases hacts with ⟨rfl, _, rfl⟩ | ⟨_, hyes, _⟩
  · exact hrun
  · exact absurd hyes hno

theorem rewrite_settled (hR : Diminishes rule) (hp : p.Settled)
    (h : (rewrite rule).run p = .ok (false, p')) :
    p' = p ∧ (rewrite rule).run p = .ok (false, p) := by
  have hsame := (rewrite_unchanged hR h).2
  rw [hp.collect_eq] at hsame
  subst hsame
  exact ⟨rfl, h⟩

theorem removeUnused_run {removed changed : Bool} {s : Store}
    (h : p.store.dropUnused p.this = .ok (removed, s))
    (hclean : cleanStatements.run (p.inStore s).collect = .ok (changed, p')) :
    removeUnused.run p = .ok (removed || changed, p') := by
  have hget : (get : ProgramM Program).run p = .ok (p, p) := rfl
  have hends : Ends removeUnused p fun both q => both = (removed || changed) ∧ q = p' := by
    refine .bind_run hget ?_
    rw [h]
    refine .bind_run (a := ()) rfl (.bind_run hclean ?_)
    exact .pure ⟨rfl, rfl⟩
  obtain ⟨_, _, hrun, rfl, rfl⟩ := hends
  exact hrun

theorem dropUnused_ok (p : Program) : ∃ removed s, p.store.dropUnused p.this = .ok (removed, s) := by
  by_cases hentry : p.store.entryPoints p.thisModule = []
  · exact ⟨false, p.store, Store.dropUnused_of_no_entry hentry⟩
  · obtain ⟨_, _, removed, _, _, hrun⟩ := Store.dropUnused_run hentry
    exact ⟨removed, _, hrun⟩

/-- A removal that said that it changed nothing only set marks, and so it will say again. -/
theorem removeUnused_settled (hp : p.Settled) (h : removeUnused.run p = .ok (false, p')) :
    ∃ s, p.store.Marked s ∧ p' = p.inStore s ∧ p'.Settled ∧
      removeUnused.run p' = .ok (false, p') := by
  obtain ⟨removed, s, hdrop⟩ := p.dropUnused_ok
  obtain ⟨changed, p₁, hclean, _⟩ := rewrite_acts .cleanBlock (p.inStore s).collect
  rw [removeUnused_run hdrop hclean] at h
  obtain ⟨hor, rfl⟩ := Prod.mk.inj (Except.ok.inj h)
  obtain ⟨rfl, rfl⟩ := Bool.or_eq_false_iff.1 hor
  obtain ⟨hmarked, hagain⟩ := Store.dropUnused_again hdrop
  have hsettled : (p.inStore s).Settled := hmarked.settled hp
  rw [hsettled.collect_eq] at hclean
  obtain ⟨rfl, hclean⟩ := rewrite_settled .cleanBlock hsettled hclean
  refine ⟨s, hmarked, rfl, hsettled, ?_⟩
  have hsame : ((p.inStore s).inStore s).collect = p.inStore s := hsettled.collect_eq
  refine removeUnused_run (p := p.inStore s) hagain ?_
  rw [hsame]
  exact hclean

/-- Passes in a row that say that they change nothing. -/
inductive Quiet : List (ProgramM Bool) → Program → Program → Prop
  | nil (p : Program) : Quiet [] p p
  | cons {pass l} {p p₁ p' : Program} (h : pass.run p = .ok (false, p₁)) (hs : Quiet l p₁ p') :
    Quiet (pass :: l) p p'

theorem quiet_of_runPasses {l : List (ProgramM Bool)} (hl : ∀ pass ∈ l, pass ∈ passes)
    {changed : Bool} (h : (runPasses l changed).run p = .ok (.going false, p')) :
    changed = false ∧ Quiet l p p' := by
  induction l generalizing p changed with
  | nil =>
    cases h
    exact ⟨rfl, .nil _⟩
  | cons pass rest ih =>
    obtain ⟨now, p₁, hpass, _⟩ := settles_of_pass (hl pass (.head _)) p
    rw [runPasses_cons hpass] at h
    split at h
    · cases h
    · obtain ⟨hor, hquiet⟩ := ih (fun pass hpass => hl pass (.tail _ hpass)) h
      obtain ⟨rfl, rfl⟩ := Bool.or_eq_false_iff.1 hor
      exact ⟨rfl, .cons hpass hquiet⟩

theorem runPasses_of_quiet {l : List (ProgramM Bool)} (hp : p.failed = false)
    (h : ∀ pass ∈ l, pass.run p = .ok (false, p)) :
    (runPasses l false).run p = .ok (.going false, p) := by
  induction l with
  | nil => rfl
  | cons pass rest ih =>
    rw [runPasses_cons (h pass (.head _)), if_neg (by rw [hp]; exact Bool.false_ne_true)]
    exact ih fun pass hpass => h pass (.tail _ hpass)

/-- After a round in which no pass changed anything, none changes anything any more. -/
theorem passes_idle_of_quiet (h : Quiet passes q p') :
    ∀ pass ∈ passes, pass.run p' = .ok (false, p') := by
  obtain _ | ⟨hrefs, h⟩ := h
  obtain _ | ⟨hdrop, h⟩ := h
  obtain _ | ⟨hconsts, h⟩ := h
  obtain _ | ⟨hconds, h⟩ := h
  obtain _ | ⟨hblocks, h⟩ := h
  obtain _ | ⟨hdrop', h⟩ := h
  cases h
  obtain ⟨hno, rfl⟩ := rewrite_unchanged .cancelReference hrefs
  obtain ⟨s, hmarked, rfl, hsettled, hagain⟩ := removeUnused_settled (settled_collect q) hdrop
  obtain ⟨rfl, hconsts⟩ := rewrite_settled .foldConstant hsettled hconsts
  obtain ⟨rfl, hconds⟩ := rewrite_settled .chooseBranch hsettled hconds
  obtain ⟨rfl, hblocks⟩ := rewrite_settled .tidyBlock hsettled hblocks
  rw [hagain] at hdrop'
  obtain ⟨_, rfl⟩ := Prod.mk.inj (Except.ok.inj hdrop')
  have hrefs : ¬ (q.collect.inStore s).Fires fun _ => Expr.cancelReference? := by
    intro hfires
    have hbefore := hmarked.within.firesInModule hfires
    exact hno ((Store.partOf_collect q.store _).within.firesInModule hbefore)
  have hrefs := rewrite_idle .cancelReference hrefs
  rw [hsettled.collect_eq] at hrefs
  intro pass hpass
  simp only [passes, List.mem_cons, List.not_mem_nil, or_false] at hpass
  rcases hpass with rfl | rfl | rfl | rfl | rfl | rfl
  · exact hrefs
  · exact hagain
  · exact hconsts
  · exact hconds
  · exact hblocks
  · exact hagain

/-- Where no error is reported, the last round changed nothing. -/
theorem runRounds_last {fuel rounds : Nat} (hplain : p.rewriters = [])
    (h : (runRounds fuel rounds).run p = .ok ((), p')) (hp' : p'.failed = false) :
    ¬ p.policies.maxPasses?.any (· ≤ rounds) = true ∧ (∃ changed, p.Settles changed p') ∧
      ∃ q, Quiet passes q p' := by
  induction fuel generalizing rounds p with
  | zero => cases h
  | succ fuel ih =>
    by_cases hlimit : p.policies.maxPasses?.any (· ≤ rounds) = true
    · rw [runRounds_limit hlimit] at h
      cases h
      simp [failed, reportAt, report] at hp'
    refine ⟨hlimit, ?_⟩
    obtain ⟨progress, p₁, hround, now, h₁, hprogress⟩ := round_settles hplain
    rw [runRounds_round hlimit hround] at h
    split at h
    · obtain ⟨_, ⟨changed, h₂⟩, hquiet⟩ := ih (h₁.plain.trans hplain) h
      exact ⟨⟨now || changed, h₁.trans h₂⟩, hquiet⟩
    · rename_i hlast
      cases h
      refine ⟨⟨now, h₁⟩, p, ?_⟩
      rcases hprogress with rfl | ⟨_, hfailed⟩
      · cases now with
        | true => exact absurd rfl hlast
        | false =>
          rw [round_run hplain] at hround
          exact (quiet_of_runPasses (fun _ hpass => hpass) hround).2
      · rw [hfailed] at hp'
        cases hp'

/-- What the optimizer makes of a program without rewriters is a common fixed point of the passes,
unless it has failed: each pass says that it changes nothing and leaves the whole program as it is,
and so does the optimizer. -/
theorem optimize_fixpoint (p p' : Program) (hplain : p.rewriters = [])
    (hon : p.options.getBool "optimize" p.policies.optimize = true)
    (hrun : optimize.run p = .ok ((), p')) (hp' : p'.failed = false) :
    (∀ pass ∈ passes, pass.run p' = .ok (false, p')) ∧ optimize.run p' = .ok ((), p') := by
  rw [optimize_run hon] at hrun
  obtain ⟨hlimit, ⟨changed, h⟩, q, hquiet⟩ := runRounds_last hplain hrun hp'
  have hidle := passes_idle_of_quiet hquiet
  refine ⟨hidle, ?_⟩
  have hon' : p'.options.getBool "optimize" p'.policies.optimize = true := by
    rw [h.frame]
    exact hon
  have hround : round.run p' = .ok (.going false, p') := by
    rw [round_run (h.plain.trans hplain)]
    exact runPasses_of_quiet hp' hidle
  obtain ⟨fuel, hfuel⟩ : ∃ fuel,
      (p'.policies.maxPasses?.map (· + 1)).getD p'.roundsNeeded = fuel + 1 := by
    cases p'.policies.maxPasses? with
    | none => exact ⟨_, rfl⟩
    | some k => exact ⟨k, rfl⟩
  rw [← h.policies] at hlimit
  rw [optimize_run hon', hfuel, runRounds_round hlimit hround]
  rfl

/-- Once `idle` is gone, nothing is left to do for this program. -/
theorem optimize_fixpoint_mainAndIdle : ∃ p', mainAndIdle.rewriters = [] ∧
    mainAndIdle.options.getBool "optimize" mainAndIdle.policies.optimize = true ∧
    optimize.run mainAndIdle = .ok ((), p') ∧ p'.failed = false ∧
    (∀ pass ∈ passes, pass.run p' = .ok (false, p')) ∧ optimize.run p' = .ok ((), p') := by
  obtain ⟨_, p', hrun, _, h⟩ := optimize_settles plain_mainAndIdle bulk_mainAndIdle
  have hon : mainAndIdle.options.getBool "optimize" mainAndIdle.policies.optimize = true := by decide
  have hp' : p'.failed = false := by
    rw [h.frame]
    rfl
  exact ⟨p', plain_mainAndIdle, hon, hrun, hp',
    optimize_fixpoint mainAndIdle p' plain_mainAndIdle hon hrun hp'⟩

end Frontend.Program
