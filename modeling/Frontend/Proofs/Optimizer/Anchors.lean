import Frontend.Proofs.Optimizer.Tallies

/-!
# Labels that no pass takes away

A pass decides about one list of statements or one branch at a time, and a label goes with the tree
that it stands in. Two rules take trees that hold more than constants: a known condition takes the
branch that it does not choose, and a statement that always leaves takes what follows it, up to a
label in the same list. `Expr.Anchored` describes the labels that neither of them can reach, now or
after other rewrites, and `Expr.KeepsAnchors` what every rule makes of them.
-/

namespace Frontend

namespace Node

/-- The children that stay as long as the node does: neither branches nor statements. -/
def held : Node → List Expr
  | .block .. => []
  | .ifThenElse cond _ _ _ => [cond]
  | .whileLoop cond _ => [cond]
  | .op3 _ cond _ _ _ => [cond]
  | n => n.visited

/-- The children of which a condition chooses one or none. -/
def branches : Node → List Expr
  | .ifThenElse _ ifTrue ifFalse _ => ifTrue :: ifFalse.toList
  | .whileLoop _ body => [body]
  | .op3 _ _ left right _ => [left, right]
  | _ => []

def sections : Node → List (List Expr)
  | .block _ list finalList => [list, finalList]
  | _ => []

/-- The trees that may come to stand in the place of the node, or that leave the flow for it. -/
def exposed : Node → List Expr
  | .convert _ value => [value]
  | .block _ list _ => list
  | .ifThenElse _ ifTrue ifFalse _ => ifTrue :: ifFalse.toList
  | .op3 _ _ left right _ => [left, right]
  | _ => []

/-- A node in whose place there may be a literal, now or once its children are literals. -/
def foldable : Node → Bool
  | .literal _ | .convert .. | .op1 .. | .op2 .. | .op3 .. | .stringBuilder _
  | .ifThenElse .. => true
  | _ => false

theorem mem_visited_of_held {n : Node} {c : Expr} (h : c ∈ n.held) : c ∈ n.visited := by
  cases n with
  | block => cases h
  | ifThenElse | whileLoop | op3 => exact List.mem_singleton.1 h ▸ .head _
  | _ => exact h

theorem mem_visited_of_branches {n : Node} {c : Expr} (h : c ∈ n.branches) : c ∈ n.visited := by
  cases n with
  | ifThenElse | whileLoop | op3 => exact .tail _ h
  | _ => cases h

/-- Every child is held, a branch or a statement. -/
theorem held_or_branch_or_statement {n : Node} {c : Expr} (h : c ∈ n.visited ∨ c ∈ n.skipped) :
    c ∈ n.held ∨ c ∈ n.branches ∨ ∃ l ∈ n.sections, c ∈ l := by
  cases n with
  | block info list finalList =>
    have : c ∈ list ∨ c ∈ finalList := by
      simp only [visited, visitedFinally, skipped] at h
      split at h <;> split at h <;> simp_all [or_comm]
    rcases this with h | h
    · exact .inr (.inr ⟨list, .head _, h⟩)
    · exact .inr (.inr ⟨finalList, .tail _ (.head _), h⟩)
  | ifThenElse | whileLoop | op3 =>
    rcases h with h | h
    · rcases List.mem_cons.1 h with rfl | h
      · exact .inl (.head _)
      · exact .inr (.inl h)
    · cases h
  | _ =>
    rcases h with h | h
    · exact .inl h
    · cases h

namespace Rewritten

variable {R : Expr → Expr → Prop} {n n' : Node}

theorem held (h : n.Rewritten R n') : List.Forall₂ R n.held n'.held := by
  have hv := h.visited
  cases h with
  | block => exact .nil
  | ifThenElse h | whileLoop h | op3 h => exact .cons h .nil
  | _ => exact hv

theorem branches (h : n.Rewritten R n') : List.Forall₂ R n.branches n'.branches := by
  cases h with
  | ifThenElse _ ht hf => exact .cons ht (forall₂_toList hf)
  | whileLoop _ hb => exact .cons hb .nil
  | op3 _ hl hr => exact .cons hl (.cons hr .nil)
  | _ => exact .nil

theorem exposed (h : n.Rewritten R n') : List.Forall₂ R n.exposed n'.exposed := by
  cases h with
  | convert h => exact .cons h .nil
  | block h => exact h
  | ifThenElse _ ht hf => exact .cons ht (forall₂_toList hf)
  | op3 _ hl hr => exact .cons hl (.cons hr .nil)
  | _ => exact .nil

/-- A `finally` section that a visit passes over stays as it is. -/
theorem sections (hr : ∀ e, R e e) (h : n.Rewritten R n') :
    List.Forall₂ (List.Forall₂ R) n.sections n'.sections := by
  cases h with
  | @block info _ _ finalList finalList' h hf hd =>
    have final : List.Forall₂ R finalList finalList' := by
      cases off : info.finallyDisabled with
      | true => exact hd off ▸ List.forall₂_same.2 fun e _ => hr e
      | false =>
        simp only [visitedFinally, off] at hf
        exact hf
    exact .cons h (.cons final .nil)
  | _ => exact .nil

theorem foldable_eq (h : n.Rewritten R n') : n'.foldable = n.foldable := by
  cases h <;> rfl

end Rewritten

end Node

def Store.leavesBy (s : Store) : Node → Bool
  | .ret .. | .breakLoop | .continueLoop => true
  | .call _ _ function => s.isBuiltinPanic function
  | _ => false

theorem Store.leavesBy_of_rewritten (s : Store) {R : Expr → Expr → Prop} {n n' : Node}
    (h : n.Rewritten R n') : s.leavesBy n' = s.leavesBy n := by
  cases h <;> rfl

def Store.PanicsIn (s s₀ : Store) : Prop :=
  ∀ function, s.isBuiltinPanic function = true → s₀.isBuiltinPanic function = true

/-- There is never a literal in the place of the node. -/
inductive Expr.Lasting : Expr → Prop
  | kind {e} (h : e.node.foldable = false) : Lasting e
  | held {e c} (hc : c ∈ e.node.held) (h : Lasting c) : Lasting e

/-- A statement that never always leaves, whatever the passes make of it: nothing that it exposes
does, or it goes on if a condition that stays unknown says so. -/
inductive Store.Passable (s : Store) : Expr → Prop
  | exposed {e} (hn : s.leavesBy e.node = false) (h : ∀ c ∈ e.node.exposed, Passable s c) :
    Passable s e
  | noElse {e cond ifTrue isStatic} (hn : e.node = .ifThenElse cond ifTrue none isStatic)
      (hcond : cond.Lasting) : Passable s e
  | oneBranch {e cond ifTrue ifFalse isStatic c}
      (hn : e.node = .ifThenElse cond ifTrue (some ifFalse) isStatic) (hcond : cond.Lasting)
      (hc : c ∈ [ifTrue, ifFalse]) (h : Passable s c) : Passable s e

/-- The end of the statements is in reach whatever the passes have done to them before, given
whether their beginning is. -/
def Store.Reaches (s : Store) : Prop → List Expr → Prop
  | start, [] => start
  | start, e :: es => s.Reaches (start ∧ s.Passable e ∨ e.isLabel = true) es

/-- What a pass takes with all that is in it. -/
structure Cuts where
  /-- The branches that a known condition does not choose. -/
  branches : Bool := false
  /-- The statements out of reach. -/
  statements : Bool := false

/-- The tree has a label of the number that no cut can take: the conditions of the branches around
it never become known, and in every list of statements around it, it is a label of the list or in a
statement in reach. -/
inductive Expr.Anchored (cuts : Cuts) (s : Store) (k : Int32) : Expr → Prop
  | label {e} (h : e.node.labels k = true) : Anchored cuts s k e
  | held {e c} (hc : c ∈ e.node.held) (h : Anchored cuts s k c) : Anchored cuts s k e
  | branch {e c} (hc : c ∈ e.node.branches)
      (hcond : cuts.branches = true → ∀ x ∈ e.node.held, x.Lasting)
      (h : Anchored cuts s k c) : Anchored cuts s k e
  | statement {e c front back} (hl : front ++ c :: back ∈ e.node.sections)
      (hreach : cuts.statements = true → c.isLabel = true ∨ s.Reaches True front)
      (h : Anchored cuts s k c) : Anchored cuts s k e

/-- What becomes of a tree in one or many rewrites. Nothing of a kind is added, labels stay as they
are, and anchored labels stay anchored. -/
structure Expr.KeepsAnchors (cuts : Cuts) (s : Store) (e e' : Expr) : Prop where
  count : ∀ {p}, Node.IsKind p → e'.count p ≤ e.count p
  label : e.isLabel = true → e' = e
  lasting : e.Lasting → e'.Lasting
  passable : s.Passable e → s.Passable e'
  anchored : ∀ {k}, e.Anchored cuts s k → e'.Anchored cuts s k

namespace Store

variable {s s₁ s₂ : Store} {e : Expr} {start : Prop} {front : List Expr}

theorem PanicsIn.trans (h : s.PanicsIn s₁) (h' : s₁.PanicsIn s₂) : s.PanicsIn s₂ :=
  fun function hpanic => h' function (h function hpanic)

/-- Both stores throw alike where functions are called alike. -/
theorem PanicsIn.of_sameCallees (h : s.SameCallees s₁) : s₁.PanicsIn s :=
  fun function hpanic => (h.isBuiltinPanic function).symm.trans hpanic

theorem anyLeaves_eq_false {es : List Expr} (h : ∀ e ∈ es, s.alwaysLeaves e = false) :
    s.anyLeaves es = false := by
  induction es with
  | nil => rfl
  | cons e es ih =>
    rw [anyLeaves, h e (.head _), ih fun e he => h e (.tail _ he)]
    rfl

theorem Passable.not_alwaysLeaves (hpanic : s₁.PanicsIn s) (h : s.Passable e) :
    s₁.alwaysLeaves e = false := by
  induction h with
  | @exposed e hn _ ih =>
    obtain ⟨span, type, flags, node⟩ := e
    cases node with
    | ret | breakLoop | continueLoop => cases hn
    | call name args function =>
      by_contra hleaves
      have := hpanic function (eq_true_of_ne_false hleaves)
      rw [leavesBy, this] at hn
      cases hn
    | block info list finalList =>
      have none : s₁.anyLeaves list = false := anyLeaves_eq_false ih
      rw [alwaysLeaves, nodeLeaves, none, Bool.and_false]
    | ifThenElse cond ifTrue ifFalse isStatic =>
      cases ifFalse with
      | none => rfl
      | some ifFalse => rw [alwaysLeaves, nodeLeaves, ih ifTrue (.head _), Bool.false_and]
    | _ => rfl
  | @noElse e cond ifTrue isStatic hn _ =>
    obtain ⟨span, type, flags, node⟩ := e
    cases hn
    rfl
  | @oneBranch e cond ifTrue ifFalse isStatic c hn _ hc _ ih =>
    obtain ⟨span, type, flags, node⟩ := e
    cases hn
    rw [alwaysLeaves, nodeLeaves]
    rcases List.mem_pair.1 hc with rfl | rfl
    · rw [ih, Bool.false_and]
    · rw [ih, Bool.and_false]

theorem reaches_cons : s.Reaches start (e :: front) ↔
    s.Reaches (start ∧ s.Passable e ∨ e.isLabel = true) front := Iff.rfl

theorem Reaches.mono {start' : Prop} (hstart : start → start') (h : s.Reaches start front) :
    s.Reaches start' front := by
  induction front generalizing start start' with
  | nil => exact hstart h
  | cons e front ih => exact ih (Or.imp_left (And.imp_left hstart)) h

theorem reaches_append {front' : List Expr} :
    s.Reaches start (front ++ front') ↔ s.Reaches (s.Reaches start front) front' := by
  induction front generalizing start with
  | nil => exact Iff.rfl
  | cons e front ih => exact ih

theorem reaches_of_passable (hstart : start) (h : ∀ e ∈ front, s.Passable e) :
    s.Reaches start front := by
  induction front generalizing start with
  | nil => exact hstart
  | cons e front ih => exact ih (.inl ⟨hstart, h e (.head _)⟩) fun e he => h e (.tail _ he)

end Store

namespace Expr

variable {cuts : Cuts} {s : Store} {k : Int32} {e e' : Expr}

theorem Lasting.not_literal (h : e.Lasting) : e.isLiteral = false := by
  obtain ⟨span, type, flags, node⟩ := e
  cases node with
  | literal =>
    cases h with
    | kind h => cases h
    | held hc => cases hc
  | _ => rfl

namespace Anchored

theorem count_pos (h : e.Anchored cuts s k) : 0 < e.count (Node.labels k) := by
  induction h with
  | label h => exact Expr.count_pos h
  | held hc _ ih =>
    exact Nat.lt_of_lt_of_le ih (count_le_of_visited _ (Node.mem_visited_of_held hc))
  | branch hc _ _ ih =>
    exact Nat.lt_of_lt_of_le ih (count_le_of_visited _ (Node.mem_visited_of_branches hc))
  | @statement e c front back hl _ _ ih =>
    obtain ⟨info, list, finalList, hn⟩ : ∃ info list finalList,
        e.node = .block info list finalList := by
      cases hn : e.node with
      | block info list finalList => exact ⟨info, list, finalList, rfl⟩
      | _ => rw [hn] at hl; cases hl
    have hmem : c ∈ front ++ c :: back := List.mem_append_right _ (.head _)
    have hle := le_total_of_mem (count (Node.labels k)) hmem
    rw [count_of_block (Node.isKind_labels k) hn]
    simp only [hn, Node.sections, List.mem_cons, List.not_mem_nil, or_false] at hl
    rcases hl with hl | hl
    · rw [← hl]
      omega
    · rw [← hl]
      omega

theorem not_literal (h : e.Anchored cuts s k) : e.isLiteral = false := by
  by_contra hliteral
  have := h.count_pos
  rw [count_literal (Node.isKind_labels k) (eq_true_of_ne_false hliteral)] at this
  exact absurd this (Nat.lt_irrefl 0)

/-- Without cuts every label is anchored. -/
theorem of_count_pos (s : Store) : ∀ e : Expr, 0 < e.count (Node.labels k) → e.Anchored {} s k
  | e, h => by
    by_cases own : e.node.labels k = true
    · exact .label own
    · rw [count_eq, eq_false_of_ne_true own, Bool.toNat_false, Nat.zero_add,
        ← total_append] at h
      obtain ⟨c, hc, hpos⟩ := exists_pos_of_total_pos h
      have hchild := List.mem_append.1 hc
      have hlt := weight_lt_of_child hchild
      rcases Node.held_or_branch_or_statement hchild with hc | hc | ⟨l, hl, hc⟩
      · exact .held hc (of_count_pos s c hpos)
      · exact .branch hc (fun h => by cases h) (of_count_pos s c hpos)
      · obtain ⟨front, back, rfl⟩ := List.append_of_mem hc
        exact .statement hl (fun h => by cases h) (of_count_pos s c hpos)
termination_by e => e.weight

end Anchored

namespace KeepsAnchors

theorem refl (e : Expr) : KeepsAnchors cuts s e e where
  count _ := Nat.le_refl _
  label _ := rfl
  lasting h := h
  passable h := h
  anchored h := h

theorem trans {a b c : Expr} (h : KeepsAnchors cuts s a b) (h' : KeepsAnchors cuts s b c) :
    KeepsAnchors cuts s a c where
  count hp := Nat.le_trans (h'.count hp) (h.count hp)
  label ha := by
    obtain rfl := h.label ha
    exact h'.label ha
  lasting ha := h'.lasting (h.lasting ha)
  passable ha := h'.passable (h.passable ha)
  anchored ha := h'.anchored (h.anchored ha)

theorem isLabel (h : KeepsAnchors cuts s e e') (he : e.isLabel = true) : e'.isLabel = true :=
  h.label he ▸ he

theorem reaches {front front' : List Expr} (h : List.Forall₂ (KeepsAnchors cuts s) front front')
    {start : Prop} (hreach : s.Reaches start front) : s.Reaches start front' := by
  induction h generalizing start with
  | nil => exact hreach
  | cons he _ ih =>
    rw [Store.reaches_cons] at hreach ⊢
    exact (ih hreach).mono (Or.imp (And.imp_right he.passable) he.isLabel)

theorem passable_congr {n : Node} (h : e.node.Rewritten (KeepsAnchors cuts s) n)
    (he : s.Passable e) : s.Passable { e with node := n } := by
  cases he with
  | exposed hn he =>
    refine .exposed ((s.leavesBy_of_rewritten h).trans hn) fun c' hc' => ?_
    obtain ⟨c, hc, hkeeps⟩ := exists_of_forall₂ h.exposed.flip hc'
    exact hkeeps.passable (he c hc)
  | noElse hn hcond =>
    rw [hn] at h
    cases h with
    | ifThenElse hc _ hf =>
      cases hf
      exact .noElse rfl (hc.lasting hcond)
  | oneBranch hn hcond hc he =>
    rw [hn] at h
    cases h with
    | ifThenElse hcond' ht hf =>
      cases hf with
      | some hf =>
        have lasting := hcond'.lasting hcond
        rcases List.mem_pair.1 hc with rfl | rfl
        · exact .oneBranch rfl lasting (.head _) (ht.passable he)
        · exact .oneBranch rfl lasting (.tail _ (.head _)) (hf.passable he)

/-- Trees whose children are rewritten keep their anchors. -/
theorem congr {n : Node} (h : e.node.Rewritten (KeepsAnchors cuts s) n) :
    KeepsAnchors cuts s e { e with node := n } where
  count hp := count_le_of_rewritten hp (h.mono fun _ _ hc => hc.count hp)
  label he := by
    obtain ⟨span, type, flags, node⟩ := e
    cases h with
    | label => rfl
    | _ => cases he
  lasting he := by
    cases he with
    | kind he => exact .kind (h.foldable_eq.trans he)
    | held hc hlast =>
      obtain ⟨c', hc', hkeeps⟩ := exists_of_forall₂ h.held hc
      exact .held hc' (hkeeps.lasting hlast)
  passable := passable_congr h
  anchored he := by
    cases he with
    | label he =>
      refine .label (Eq.trans ?_ he)
      exact (Node.isKind_labels _).rewritten (h.mono fun _ _ _ => True.intro)
    | held hc he =>
      obtain ⟨c', hc', hkeeps⟩ := exists_of_forall₂ h.held hc
      exact .held hc' (hkeeps.anchored he)
    | branch hc hcond he =>
      obtain ⟨c', hc', hkeeps⟩ := exists_of_forall₂ h.branches hc
      refine .branch hc' (fun hcut x' hx' => ?_) (hkeeps.anchored he)
      obtain ⟨x, hx, hkeeps⟩ := exists_of_forall₂ h.held.flip hx'
      exact hkeeps.lasting (hcond hcut x hx)
    | statement hl hreach he =>
      obtain ⟨l', hl', hkeeps⟩ := exists_of_forall₂ (h.sections refl) hl
      obtain ⟨front', c', back', rfl, hfront, hc⟩ := split_of_forall₂ hkeeps
      refine .statement hl' (fun hcut => ?_) (hc.anchored he)
      exact (hreach hcut).imp hc.isLabel (reaches hfront)

end KeepsAnchors

end Expr

end Frontend
