import Frontend.Proofs.Ownership
import Frontend.Proofs.Semantics.Rules

/-!
# The passes of the optimizer keep the runs of functions

A rule that keeps the meaning of every node keeps the meaning of every tree of a program when a pass
applies it. What visible modules register outlives the pass, so calls that panicked still do.
-/

namespace Frontend

namespace SoundRule

variable {s₀ : Store} {panics : FunctionId → Prop} {rule : Store → Expr → Option Expr}

theorem of_sameMeaning (hw : ∀ {s e e'}, rule s e = some e' → e'.weight ≤ e.weight)
    (h : ∀ {s e e'}, rule s e = some e' → SameMeaning panics e e') :
    SoundRule rule s₀ (SameMeaning panics) where
  refl := .refl
  trans _ _ _ := .trans
  congr := .congr
  weight := hw
  sound _ := h

theorem foldConstant : SoundRule Store.foldConstant? s₀ (SameMeaning panics) :=
  of_sameMeaning Store.weight_foldConstant sameMeaning_foldConstant

theorem chooseBranch : SoundRule Store.chooseBranch? s₀ (SameMeaning panics) :=
  of_sameMeaning Store.weight_chooseBranch sameMeaning_chooseBranch

theorem tidyBlock : SoundRule Store.tidyBlock? s₀ (SameMeaning panics) :=
  of_sameMeaning Store.weight_tidyBlock sameMeaning_tidyBlock

theorem cleanBlock : SoundRule (fun _ => Expr.cleanBlock?) s₀ (SameMeaning panics) :=
  of_sameMeaning Expr.weight_cleanBlock sameMeaning_cleanBlock

end SoundRule

namespace Program

variable {p p' : Program} {s : Store} {id : FunctionId}

def Panics (p : Program) (id : FunctionId) : Prop :=
  p.Registers id ∧ p.store.isBuiltinPanic (some id) = true

/-- The same functions are registered, they are there as before but for their bodies, and every
plain body of a function that is there has become a plain body with the same runs. -/
structure SameRuns (p p' : Program) : Prop where
  registers : p'.Registers = p.Registers
  panics : p'.Panics = p.Panics
  functions : ∀ id f, p.Registers id → p.store.function? id = some f →
    ∃ body, p'.store.function? id = some { f with body }
  bodies : ∀ id f f' body, p.store.function? id = some f → p'.store.function? id = some f' →
    f.body = some body → PlainCode p.Panics body →
      ∃ body', f'.body = some body' ∧ PlainCode p'.Panics body' ∧
        ∀ M : Machine, M.runs p'.Panics body' = M.runs p.Panics body

section Rewritten

variable {R : Expr → Expr → Prop} (h : p.store.Rewritten R s)

include h

theorem panics_of_rewritten : (p.inStore s).collect.Panics = p.Panics := by
  funext id
  unfold Panics
  rw [registers_of_rewritten h]
  refine propext (and_congr_right fun hid => ?_)
  have here := function?_of_rewritten h hid
  have same : (p.inStore s).collect.store.isBuiltinPanic (some id) =
      s.isBuiltinPanic (some id) := by
    simp only [Store.isBuiltinPanic, Option.bind_some, here]
  rw [same, (Store.SameCallees.of_rewritten h).isBuiltinPanic]

end Rewritten

/-- A pass whose rule keeps the meaning keeps the runs. -/
theorem sameRuns_rewrite {rule : Store → Expr → Option Expr} (p : Program)
    (hR : SoundRule rule p.store (SameMeaning p.Panics)) :
    Ends (rewrite rule) p fun _ p' => p.SameRuns p' := by
  refine (rewrite_ends p hR).mono ?_
  rintro _ _ ⟨s, h, rfl⟩
  refine ⟨registers_of_rewritten h, panics_of_rewritten h, fun id f hid hf => ?_, ?_⟩
  · rw [function?_of_rewritten h hid]
    obtain ⟨f', hf', body, hbody, _⟩ := h.functions.get? hf
    exact ⟨body, hf'.trans (congrArg some hbody)⟩
  · intro id f f' body hf hf' hbody hplain
    have hf' : s.function? id = some f' := (Store.partOf_collect s _).functions id f' hf'
    obtain ⟨_, hget, body', rfl, hrel⟩ := h.functions.get? hf
    obtain rfl := Option.some.inj (hf'.symm.trans hget)
    rw [hbody] at hrel
    cases hrel with
    | some hrel =>
      obtain ⟨hplain', hruns⟩ := hrel.code hplain
      rw [panics_of_rewritten h]
      exact ⟨_, rfl, hplain', hruns⟩

/-- Folding constants, choosing branches, tidying blocks and cleaning statements end on every program
and keep the runs of its functions. -/
theorem passes_sameRuns (p : Program) :
    Ends foldConstants p (fun _ p' => p.SameRuns p') ∧
      Ends foldConditions p (fun _ p' => p.SameRuns p') ∧
      Ends foldBlocks p (fun _ p' => p.SameRuns p') ∧
      Ends cleanStatements p (fun _ p' => p.SameRuns p') :=
  ⟨p.sameRuns_rewrite .foldConstant, p.sameRuns_rewrite .chooseBranch,
    p.sameRuns_rewrite .tidyBlock, p.sameRuns_rewrite .cleanBlock⟩

end Program

end Frontend
