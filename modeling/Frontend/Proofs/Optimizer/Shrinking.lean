import Frontend.Optimizer.Rules
import Frontend.Proofs.Optimizer.Flattening
import Frontend.Proofs.Traversal.Rewriting

/-!
# Rules make no tree heavier

What takes the place of a node is one of its own trees, a literal, or the node with statements
inlined or left out.
-/

namespace Frontend

theorem total_le_of_sublist {α : Type} (f : α → Nat) {as bs : List α} (h : as.Sublist bs) :
    total f as ≤ total f bs := by
  induction h with
  | slnil => exact Nat.le_refl 0
  | cons a _ ih => exact Nat.le_trans ih (Nat.le_add_left _ _)
  | cons_cons a _ ih => exact Nat.add_le_add_left ih _

namespace Expr

theorem size_of_block (f : Expr → Nat) {e : Expr} {info : BlockInfo} {list finalList : List Expr}
    (h : e.node = .block info list finalList) :
    e.size f = f e + (total (size f) list + total (size f) finalList) := by
  obtain ⟨span, type, flags, node⟩ := e
  cases h
  simp [size, subtrees, Node.subtrees, total_listSubtrees]

theorem weight_of_block {e : Expr} {info : BlockInfo} {list finalList : List Expr}
    (h : e.node = .block info list finalList) :
    e.weight = 1 + (total weight list + total weight finalList) := by
  rw [weight_eq_size]
  exact size_of_block _ h

theorem weight_block (e : Expr) (info : BlockInfo) (list finalList : List Expr) :
    weight { e with node := .block info list finalList } =
      1 + (total weight list + total weight finalList) := weight_of_block rfl

theorem weight_lt_of_visited {e c : Expr} (h : c ∈ e.node.visited) : c.weight < e.weight :=
  weight_lt_of_child (.inl h)

theorem dropConstants_sublist (keepLast : Bool) (es : List Expr) :
    (dropConstants keepLast es).Sublist es := by
  fun_induction dropConstants keepLast es with
  | case1 => exact .slnil
  | case2 e h => exact .refl _
  | case3 e h => exact List.nil_sublist _
  | case4 e es _ h ih => exact ih.cons_cons e
  | case5 e es _ h ih => exact ih.cons e

theorem reachable_sublist (leaves : Expr → Bool) (skipping : Bool) (es : List Expr) :
    (reachable leaves skipping es).Sublist es := by
  fun_induction reachable leaves skipping es with
  | case1 => exact .slnil
  | case2 skipping e es h ih => exact ih.cons e
  | case3 skipping e es h ih => exact ih.cons_cons e

def inlinedSize (f : Expr → Nat) (e : Expr) : Nat := if e.isInlineable then f e else 0

/-- What flattens gains nothing, and each statement that dissolves is gone itself. -/
theorem Flattens.total_le {es flat : List Expr} (h : Flattens es flat) (f : Expr → Nat) :
    total (size f) flat + total (inlinedSize f) es ≤ total (size f) es := by
  induction h with
  | nil => exact Nat.le_refl 0
  | @stays e es flat he _ ih =>
    have own : inlinedSize f e = 0 := if_neg (by rw [stays_iff.1 he]; exact Bool.false_ne_true)
    rw [total_cons, total_cons, total_cons, own]
    omega
  | @dissolves e list inner es flat he _ _ ihInner ih =>
    have own : inlinedSize f e = f e := if_pos (isInlineable_iff.2 ⟨list, he⟩)
    obtain ⟨info, hn, -⟩ := he
    rw [total_append, total_cons, total_cons, own, size_of_block f hn]
    omega

/-- A reference that is cancelled leaves a tree one or two steps down. -/
theorem cancelReference_cases {e e' : Expr} (h : e.cancelReference? = some e') :
    ∃ c ∈ e.node.visited, e' = c ∨ e' ∈ c.node.visited := by
  unfold cancelReference? at h
  split at h
  · rename_i value hn
    split at h
    · cases h
      exact ⟨e', by simp [hn, Node.visited], .inl rfl⟩
    · cases h
  · rename_i hn
    cases h
    exact ⟨_, by rw [hn]; exact .head _, .inr (.head _)⟩
  · rename_i hn
    cases h
    exact ⟨_, by rw [hn]; exact .head _, .inr (.head _)⟩
  · cases h

/-- A block that is cleaned has fewer statements. -/
theorem cleanBlock_cases {e e' : Expr} (h : e.cleanBlock? = some e') :
    ∃ info list finalList, e.node = .block info list finalList ∧
      e' = { e with
        node := .block info (dropConstants info.yieldsValue list)
          (dropConstants false finalList) } ∧
      ¬ ((dropConstants info.yieldsValue list).length = list.length ∧
        (dropConstants false finalList).length = finalList.length) := by
  unfold cleanBlock? at h
  split at h
  · rename_i info list finalList hn
    dsimp only at h
    split at h
    · cases h
    · rename_i hshorter
      cases h
      exact ⟨info, list, finalList, hn, rfl, hshorter⟩
  · cases h

theorem weight_cancelReference {e e' : Expr} (h : e.cancelReference? = some e') :
    e'.weight ≤ e.weight := by
  obtain ⟨c, hc, h⟩ := cancelReference_cases h
  have hlt := weight_lt_of_visited hc
  rcases h with rfl | h
  · omega
  · have := weight_lt_of_visited h
    omega

theorem weight_cleanBlock {e e' : Expr} (h : e.cleanBlock? = some e') : e'.weight ≤ e.weight := by
  obtain ⟨info, list, finalList, hn, rfl, -⟩ := cleanBlock_cases h
  have h₁ := total_le_of_sublist weight (dropConstants_sublist info.yieldsValue list)
  have h₂ := total_le_of_sublist weight (dropConstants_sublist false finalList)
  rw [weight_block, weight_of_block hn]
  omega

def tidied (leaves : Expr → Bool) (list : List Expr) : List Expr :=
  reachable leaves false (inlineAll list)

theorem total_tidied (f : Expr → Nat) (leaves : Expr → Bool) (list : List Expr) :
    total (size f) (tidied leaves list) ≤ total (size f) list := by
  have hreach := total_le_of_sublist (size f) (reachable_sublist leaves false (inlineAll list))
  have hinline := (flattens_inlineAll list).total_le f
  unfold tidied
  omega

theorem weight_tidied (leaves : Expr → Bool) (list : List Expr) :
    total weight (tidied leaves list) ≤ total weight list := by
  rw [weight_eq_size]
  exact total_tidied _ leaves list

end Expr

namespace Store

variable {s : Store} {e e' : Expr}

/-- What is folded to a constant was no literal. -/
theorem foldConstant_cases (h : s.foldConstant? e = some e') :
    e.isLiteral = false ∧ e'.isLiteral = true := by
  unfold foldConstant? at h
  split at h
  · rename_i hn
    split at h
    · simp only [Option.bind_eq_bind, Option.bind_eq_some_iff] at h
      obtain ⟨a, _, c, _, hc⟩ := h
      cases hc
      exact ⟨by rw [Expr.isLiteral, hn], rfl⟩
    · cases h
  · rename_i hn
    split at h
    · simp only [Option.bind_eq_bind, Option.bind_eq_some_iff] at h
      obtain ⟨a, _, b, _, c, _, hc⟩ := h
      cases hc
      exact ⟨by rw [Expr.isLiteral, hn], rfl⟩
    · cases h
  · rename_i hn
    obtain ⟨text, _, rfl⟩ := Option.map_eq_some_iff.1 h
    exact ⟨by rw [Expr.isLiteral, hn], rfl⟩
  · cases h

/-- A branch is a child of the node; the branch that is not there is an empty block. -/
theorem chooseBranch_cases (h : s.chooseBranch? e = some e') :
    e' ∈ e.node.visited ∨
      e.isLiteral = false ∧ (∃ c, c ∈ e.node.visited) ∧ e' = .emptyBlock e.span := by
  unfold chooseBranch? at h
  split at h
  · rename_i cond ifTrue ifFalse isStatic hn
    obtain ⟨b, _, rfl⟩ := Option.map_eq_some_iff.1 h
    cases b with
    | true => exact .inl (by simp [hn, Node.visited])
    | false =>
      cases ifFalse with
      | none => exact .inr ⟨by rw [Expr.isLiteral, hn], ⟨cond, by simp [hn, Node.visited]⟩, rfl⟩
      | some value => exact .inl (by simp [hn, Node.visited])
  · rename_i cond body hn
    split at h
    · cases h
      exact .inr ⟨by rw [Expr.isLiteral, hn], ⟨cond, by simp [hn, Node.visited]⟩, rfl⟩
    · cases h
  · rename_i op value left right function hn
    split at h
    · obtain ⟨b, _, rfl⟩ := Option.map_eq_some_iff.1 h
      cases b <;> exact .inl (by simp [hn, Node.visited])
    · cases h
  · cases h

/-- A block is tidied if statements of it are inlined or out of reach. -/
theorem tidyBlock_cases (h : s.tidyBlock? e = some e') :
    ∃ info list finalList, e.node = .block info list finalList ∧
      e' = { e with
        node := .block info (Expr.tidied s.alwaysLeaves list)
          (Expr.tidied s.alwaysLeaves finalList) } ∧
      ∃ l ∈ [list, finalList], l.any Expr.isInlineable = true ∨
        (Expr.tidied s.alwaysLeaves l).length ≠ (Expr.inlineAll l).length := by
  unfold tidyBlock? at h
  split at h
  · rename_i info list finalList hn
    dsimp only at h
    split at h
    · rename_i htidy
      cases h
      refine ⟨info, list, finalList, hn, rfl, ?_⟩
      simp only [Bool.or_eq_true, bne_iff_ne] at htidy
      rcases htidy with ((h | h) | h) | h
      · exact ⟨list, .head _, .inl h⟩
      · exact ⟨finalList, .tail _ (.head _), .inl h⟩
      · exact ⟨list, .head _, .inr h⟩
      · exact ⟨finalList, .tail _ (.head _), .inr h⟩
    · cases h
  · cases h

theorem weight_foldConstant (h : s.foldConstant? e = some e') : e'.weight ≤ e.weight := by
  have hpos := e.weight_pos
  have hone : e'.weight = 1 := by
    obtain ⟨span, type, flags, node⟩ := e'
    have hliteral := (foldConstant_cases h).2
    unfold Expr.isLiteral at hliteral
    split at hliteral
    · rename_i hn
      cases hn
      rfl
    · cases hliteral
  omega

theorem weight_chooseBranch (h : s.chooseBranch? e = some e') : e'.weight ≤ e.weight := by
  rcases chooseBranch_cases h with hc | ⟨-, -, rfl⟩
  · exact Nat.le_of_lt (Expr.weight_lt_of_visited hc)
  · exact e.weight_pos

theorem weight_tidyBlock (h : s.tidyBlock? e = some e') : e'.weight ≤ e.weight := by
  obtain ⟨info, list, finalList, hn, rfl, -⟩ := tidyBlock_cases h
  have h₁ := Expr.weight_tidied s.alwaysLeaves list
  have h₂ := Expr.weight_tidied s.alwaysLeaves finalList
  rw [Expr.weight_block, Expr.weight_of_block hn]
  omega

end Store

/-- Any rule that makes no node heavier goes through whole programs, whatever it does. -/
theorem SoundRule.trivial {rule : Store → Expr → Option Expr} {s₀ : Store}
    (h : ∀ {s e e'}, rule s e = some e' → e'.weight ≤ e.weight) :
    SoundRule rule s₀ fun _ _ => True where
  refl _ := True.intro
  trans _ _ _ _ _ := True.intro
  congr _ := True.intro
  weight := h
  sound _ _ := True.intro

end Frontend
