import Frontend.Proofs.Traversal.Children
import Frontend.Total

/-!
# Weights of rewritten trees

The weight of a tree is one more than the weights of its children together. A node whose children
are replaced by trees of at most their weight gets no heavier.
-/

namespace Frontend

section Totals

variable {α β : Type}

theorem total_le_total {f : α → Nat} {g : β → Nat} {as : List α} {bs : List β}
    (h : List.Forall₂ (fun a b => g b ≤ f a) as bs) : total g bs ≤ total f as := by
  induction h with
  | nil => exact Nat.le_refl 0
  | cons h _ ih => exact Nat.add_le_add h ih

theorem le_total_of_mem (f : α → Nat) {a : α} {as : List α} (h : a ∈ as) : f a ≤ total f as := by
  induction h with
  | head => exact Nat.le_add_right _ _
  | tail _ _ ih => exact Nat.le_trans ih (Nat.le_add_left _ _)

theorem exists_pos_of_total_pos {f : α → Nat} {as : List α} (h : 0 < total f as) :
    ∃ a ∈ as, 0 < f a := by
  induction as with
  | nil => cases h
  | cons a as ih =>
    by_cases ha : 0 < f a
    · exact ⟨a, .head _, ha⟩
    · obtain ⟨b, hb, hpos⟩ := ih (by rw [total_cons] at h; omega)
      exact ⟨b, .tail _ hb, hpos⟩

theorem total_map (f : β → Nat) (g : α → β) (as : List α) :
    total f (as.map g) = total (fun a => f (g a)) as := by
  induction as with
  | nil => rfl
  | cons a as ih => rw [List.map_cons, total_cons, total_cons, ih]

theorem total_one (as : List α) : total (fun _ => 1) as = as.length := by
  induction as with
  | nil => rfl
  | cons a as ih => rw [total_cons, ih, List.length_cons, Nat.add_comm]

end Totals

def Expr.size (f : Expr → Nat) (e : Expr) : Nat := total f e.subtrees

theorem Expr.weight_eq_size : Expr.weight = Expr.size fun _ => 1 :=
  funext fun e => (total_one e.subtrees).symm

section Subtrees

variable (f : Expr → Nat)

theorem total_listSubtrees (es : List Expr) : total f (listSubtrees es) = total (Expr.size f) es := by
  induction es with
  | nil => rfl
  | cons e es ih => simp [listSubtrees, ih, Expr.size]

theorem total_optionSubtrees (e : Option Expr) :
    total f (optionSubtrees e) = total (Expr.size f) e.toList := by
  cases e <;> simp [optionSubtrees, Expr.size]

theorem total_fieldSubtrees (fs : List FieldInit) :
    total f (fieldSubtrees fs) = total (Expr.size f) (fs.map (·.value)) := by
  induction fs with
  | nil => rfl
  | cons x fs ih =>
    cases x
    simp [fieldSubtrees, ih, Expr.size]

theorem total_rowSubtrees (rows : List (List FieldInit)) :
    total f (rowSubtrees rows) =
      total (Expr.size f) (rows.flatMap fun fs => fs.map (·.value)) := by
  induction rows with
  | nil => rfl
  | cons fs rows ih => simp [rowSubtrees, ih, total_fieldSubtrees]

end Subtrees

/-- Children that a visit passes over: `finally` sections that are turned off. -/
def Node.skipped : Node → List Expr
  | .block info _ finalList => if info.finallyDisabled then finalList else []
  | _ => []

namespace Node

/-- Every tree below a node is below a visited or a skipped child. -/
theorem total_subtrees (f : Expr → Nat) (n : Node) :
    total f n.subtrees = total (Expr.size f) n.visited + total (Expr.size f) n.skipped := by
  cases n with
  | block info list finalList =>
    simp only [subtrees, visited, skipped, visitedFinally, total_append, total_listSubtrees]
    split <;> split <;> simp [Nat.add_comm]
  | _ =>
    simp [subtrees, visited, skipped, total_listSubtrees, total_optionSubtrees,
      total_fieldSubtrees, total_rowSubtrees, Expr.size]

theorem Rewritten.skipped_eq {R : Expr → Expr → Prop} {n n' : Node} (h : n.Rewritten R n') :
    n'.skipped = n.skipped := by
  cases h with
  | block _ _ hd =>
    simp only [Node.skipped]
    split
    · exact hd ‹_›
    · rfl
  | _ => rfl

end Node

namespace Expr

theorem size_eq (f : Expr → Nat) (e : Expr) :
    e.size f = f e + (total (size f) e.node.visited + total (size f) e.node.skipped) := by
  rw [← Node.total_subtrees]
  cases e
  simp [size, subtrees]

theorem weight_eq (e : Expr) :
    e.weight = 1 + (total weight e.node.visited + total weight e.node.skipped) := by
  rw [weight_eq_size]
  exact size_eq _ e

theorem total_visited_lt (e : Expr) : total weight e.node.visited < e.weight := by
  rw [weight_eq]
  omega

theorem weight_lt_of_child {e c : Expr} (h : c ∈ e.node.visited ∨ c ∈ e.node.skipped) :
    c.weight < e.weight := by
  rw [weight_eq e]
  rcases h with h | h
  · have := le_total_of_mem weight h
    omega
  · have := le_total_of_mem weight h
    omega

theorem weight_le_of_rewritten {e : Expr} {n : Node}
    (h : e.node.Rewritten (fun c c' => c'.weight ≤ c.weight) n) :
    weight { e with node := n } ≤ e.weight := by
  have hv := total_le_total (f := weight) (g := weight) h.visited
  rw [weight_eq, weight_eq e]
  simp only [h.skipped_eq]
  omega

end Expr

end Frontend
