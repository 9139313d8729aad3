import Frontend.Proofs.Optimizer.Shrinking

/-!
# Passes add no node of a kind

`Expr.count p` is the number of nodes below a tree that `p` holds of. All that rules bring in are
literals and blocks. If `p` looks at no children and holds of neither, no rule adds to the count:
there are no more labels and jumps after a pass than before.
-/

namespace Frontend

namespace Node

/-- A kind of nodes that is told without looking at children, and that is neither the kind of
literals nor that of blocks. -/
structure IsKind (p : Node → Bool) : Prop where
  rewritten : ∀ {n n' : Node}, n.Rewritten (fun _ _ => True) n' → p n' = p n
  literal : ∀ value, p (.literal value) = false
  block : ∀ info list finalList, p (.block info list finalList) = false

def labels (k : Int32) : Node → Bool
  | .label number _ => number == k
  | _ => false

/-- A jump to the label of the given number; computed jumps are to no label. -/
def jumpsTo (k : Int32) : Node → Bool
  | .goto number none => number == k
  | _ => false

theorem isKind_labels (k : Int32) : IsKind (labels k) where
  rewritten h := by cases h <;> rfl
  literal _ := rfl
  block _ _ _ := rfl

theorem isKind_jumpsTo (k : Int32) : IsKind (jumpsTo k) where
  rewritten h := by
    cases h with
    | goto h => cases h <;> rfl
    | _ => rfl
  literal _ := rfl
  block _ _ _ := rfl

end Node

namespace Expr

def count (p : Node → Bool) : Expr → Nat := size fun x => (p x.node).toNat

variable {p : Node → Bool} {e e' c : Expr} {info : BlockInfo} {list finalList : List Expr}

theorem count_eq (p : Node → Bool) (e : Expr) : e.count p =
    (p e.node).toNat + (total (count p) e.node.visited + total (count p) e.node.skipped) :=
  size_eq _ e

theorem count_pos (h : p e.node = true) : 0 < e.count p := by
  rw [count_eq, h, Bool.toNat_true]
  omega

theorem count_le_of_visited (p : Node → Bool) (hc : c ∈ e.node.visited) :
    c.count p ≤ e.count p := by
  have := le_total_of_mem (count p) hc
  rw [count_eq p e]
  omega

theorem count_of_block (hp : Node.IsKind p) (h : e.node = .block info list finalList) :
    e.count p = total (count p) list + total (count p) finalList := by
  have := size_of_block (fun x => (p x.node).toNat) h
  rw [h, hp.block, Bool.toNat_false, Nat.zero_add] at this
  exact this

theorem count_le_of_rewritten (hp : Node.IsKind p) {n : Node}
    (h : e.node.Rewritten (fun c c' => c'.count p ≤ c.count p) n) :
    count p { e with node := n } ≤ e.count p := by
  have hv := total_le_total (f := count p) (g := count p) h.visited
  rw [count_eq, count_eq p e]
  simp only [h.skipped_eq, hp.rewritten (h.mono fun _ _ _ => True.intro)]
  omega

theorem count_literal (hp : Node.IsKind p) (h : e.isLiteral = true) : e.count p = 0 := by
  obtain ⟨span, type, flags, node⟩ := e
  unfold isLiteral at h
  split at h
  · rename_i value hn
    cases hn
    rw [count_eq]
    simp only [hp.literal, Bool.toNat_false, Node.visited, Node.skipped, total_nil]
  · cases h

theorem count_cleanBlock (hp : Node.IsKind p) (h : e.cleanBlock? = some e') :
    e'.count p ≤ e.count p := by
  obtain ⟨info, list, finalList, hn, rfl, -⟩ := cleanBlock_cases h
  have h₁ := total_le_of_sublist (count p) (dropConstants_sublist info.yieldsValue list)
  have h₂ := total_le_of_sublist (count p) (dropConstants_sublist false finalList)
  rw [count_of_block hp hn, count_of_block hp rfl]
  omega

end Expr

namespace Store

variable {p : Node → Bool} {s : Store} {e e' : Expr}

theorem count_foldConstant (hp : Node.IsKind p) (h : s.foldConstant? e = some e') :
    e'.count p ≤ e.count p := by
  rw [Expr.count_literal hp (foldConstant_cases h).2]
  exact Nat.zero_le _

theorem count_chooseBranch (hp : Node.IsKind p) (h : s.chooseBranch? e = some e') :
    e'.count p ≤ e.count p := by
  rcases chooseBranch_cases h with hc | ⟨-, -, rfl⟩
  · exact Expr.count_le_of_visited p hc
  · rw [Expr.count_of_block hp rfl]
    exact Nat.zero_le _

theorem count_tidyBlock (hp : Node.IsKind p) (h : s.tidyBlock? e = some e') :
    e'.count p ≤ e.count p := by
  obtain ⟨info, list, finalList, hn, rfl, -⟩ := tidyBlock_cases h
  have h₁ : total (Expr.count p) (Expr.tidied s.alwaysLeaves list) ≤ total (Expr.count p) list :=
    Expr.total_tidied _ s.alwaysLeaves list
  have h₂ : total (Expr.count p) (Expr.tidied s.alwaysLeaves finalList) ≤
      total (Expr.count p) finalList := Expr.total_tidied _ s.alwaysLeaves finalList
  rw [Expr.count_of_block hp hn, Expr.count_of_block hp rfl]
  omega

end Store

end Frontend
