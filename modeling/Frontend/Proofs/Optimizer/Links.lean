import Frontend.Proofs.Optimizer.Shrinking
import Frontend.Proofs.Traversal.Meets

/-!
# The passes add no links

A tree covers another if it declares what the other declares and links to what the other links to,
somewhere below. Every rule puts a tree in the place of a node that the node covers, so what code
links to after a pass it linked to before.
-/

namespace Frontend

namespace Expr

/-- `x` is the tree itself or below a visited child. -/
inductive Below : Expr → Expr → Prop
  | here (e) : Below e e
  | child {e c x} (hc : c ∈ e.node.visited) (h : Below c x) : Below e x

theorem Below.trans {a b c : Expr} (h : a.Below b) (h' : b.Below c) : a.Below c := by
  induction h with
  | here => exact h'
  | child hc _ ih => exact .child hc (ih h')

theorem mem_visitedFinally {info : BlockInfo} {finalList : List Expr} {c : Expr} :
    c ∈ visitedFinally info finalList ↔ info.finallyDisabled = false ∧ c ∈ finalList := by
  unfold visitedFinally
  cases info.finallyDisabled with
  | true => simp
  | false => simp

theorem mem_visited_block {info : BlockInfo} {list finalList : List Expr} {c : Expr} :
    c ∈ (Node.block info list finalList).visited ↔
      c ∈ list ∨ c ∈ visitedFinally info finalList := by
  simp only [Node.visited]
  split
  · rw [List.mem_append, or_comm]
  · rw [List.mem_append]

/-- What statements flatten to was below them. -/
theorem Flattens.exists_below {es flat : List Expr} (h : Flattens es flat) :
    ∀ c ∈ flat, ∃ x ∈ es, x.Below c := by
  induction h with
  | nil => exact fun c hc => by cases hc
  | @stays e es flat _ _ ih =>
    intro c hc
    rcases List.mem_cons.1 hc with rfl | hc
    · exact ⟨c, .head _, .here c⟩
    · obtain ⟨x, hx, hbelow⟩ := ih c hc
      exact ⟨x, .tail _ hx, hbelow⟩
  | @dissolves e list inner es flat he _ _ ihInner ih =>
    intro c hc
    rcases List.mem_append.1 hc with hc | hc
    · obtain ⟨x, hx, hbelow⟩ := ihInner c hc
      obtain ⟨info, hn, -⟩ := he
      have hvisited : x ∈ e.node.visited := by
        rw [hn]
        exact mem_visited_block.2 (.inl hx)
      exact ⟨e, .head _, .child hvisited hbelow⟩
    · obtain ⟨x, hx, hbelow⟩ := ih c hc
      exact ⟨x, .tail _ hx, hbelow⟩

theorem below_of_mem_tidied {leaves : Expr → Bool} {list : List Expr} {c : Expr}
    (hc : c ∈ tidied leaves list) : ∃ x ∈ list, x.Below c :=
  (flattens_inlineAll list).exists_below c ((reachable_sublist _ _ _).subset hc)

structure Covers (e e' : Expr) : Prop where
  declared : ∀ x', e'.Below x' → ∀ id ∈ x'.node.declared, ∃ x, e.Below x ∧ id ∈ x.node.declared
  link : ∀ x' l, e'.Below x' → x'.node.link? = some l → ∃ x, e.Below x ∧ x.node.link? = some l

namespace Covers

variable {e e' : Expr}

theorem of_below (h : e.Below e') : e.Covers e' where
  declared x' hx' _ hid := ⟨x', h.trans hx', hid⟩
  link x' _ hx' hl := ⟨x', h.trans hx', hl⟩

theorem refl (e : Expr) : e.Covers e := of_below (.here e)

theorem trans {a b c : Expr} (h : a.Covers b) (h' : b.Covers c) : a.Covers c where
  declared x hx id hid := by
    obtain ⟨y, hy, hid⟩ := h'.declared x hx id hid
    exact h.declared y hy id hid
  link x l hx hl := by
    obtain ⟨y, hy, hl⟩ := h'.link x l hx hl
    exact h.link y l hy hl

theorem of_visited {c : Expr} (hc : c ∈ e.node.visited) (h : c.Covers e') : e.Covers e' :=
  (of_below (.child hc (.here c))).trans h

theorem to_visited {c : Expr} (h : e.Covers e') (hc : c ∈ e'.node.visited) : e.Covers c :=
  h.trans (of_below (.child hc (.here c)))

/-- A tree is covered if its top and its children are. -/
theorem of_parts (hd : ∀ id ∈ e'.node.declared, id ∈ e.node.declared)
    (hl : ∀ l, e'.node.link? = some l → e.node.link? = some l)
    (hc : ∀ c ∈ e'.node.visited, e.Covers c) : e.Covers e' where
  declared x' hx' id hid := by
    cases hx' with
    | here => exact ⟨e, .here e, hd id hid⟩
    | child hc' hx' => exact (hc _ hc').declared x' hx' id hid
  link x' l hx' hx := by
    cases hx' with
    | here => exact ⟨e, .here e, hl l hx⟩
    | child hc' hx' => exact (hc _ hc').link x' l hx' hx

theorem congr {n : Node} (h : e.node.Rewritten Covers n) : e.Covers { e with node := n } := by
  refine of_parts (fun id hid => ?_) (fun l hl => ?_) fun c' hc' => ?_
  · exact h.declared_eq ▸ hid
  · exact h.link?_eq ▸ hl
  · obtain ⟨i, hi, hget⟩ := List.mem_iff_getElem.1 hc'
    have hi : i < n.visited.length := hi
    have hlen := h.visited.length_eq
    have hcov := (List.forall₂_iff_get.1 h.visited).2 i (by omega) hi
    rw [List.get_eq_getElem, List.get_eq_getElem, hget] at hcov
    exact of_visited (List.getElem_mem _) hcov

theorem literal (e : Expr) (h : e'.isLiteral = true) : e.Covers e' := by
  unfold isLiteral at h
  split at h
  · rename_i hn
    refine of_parts (fun _ hd => ?_) (fun _ hl => ?_) fun _ hc => ?_
    · rw [hn] at hd
      cases hd
    · rw [hn] at hl
      cases hl
    · rw [hn] at hc
      cases hc
  · cases h

theorem emptyBlock (e : Expr) (span : Span) : e.Covers (.emptyBlock span) :=
  of_parts (fun _ h => by cases h) (fun _ h => by cases h) fun _ h => by cases h

theorem cancelReference (h : e.cancelReference? = some e') : e.Covers e' := by
  obtain ⟨c, hc, h⟩ := cancelReference_cases h
  rcases h with rfl | h
  · exact of_visited hc (refl _)
  · exact of_visited hc (of_visited h (refl _))

theorem foldConstant {s : Store} (h : s.foldConstant? e = some e') : e.Covers e' :=
  literal e (Store.foldConstant_cases h).2

theorem chooseBranch {s : Store} (h : s.chooseBranch? e = some e') : e.Covers e' := by
  rcases Store.chooseBranch_cases h with hc | ⟨-, -, rfl⟩
  · exact of_visited hc (refl _)
  · exact emptyBlock e _

section Blocks

variable {info : BlockInfo} {list list' finalList finalList' : List Expr}

theorem block (hn : e.node = .block info list finalList)
    (hl : ∀ c ∈ list', ∃ x ∈ list, x.Covers c)
    (hf : ∀ c ∈ finalList', ∃ x ∈ finalList, x.Covers c) :
    e.Covers { e with node := .block info list' finalList' } := by
  refine of_parts (fun id hid => by rw [hn]; exact hid) (fun l hl => by cases hl) fun c hc => ?_
  rcases mem_visited_block.1 hc with hc | hc
  · obtain ⟨x, hx, hcov⟩ := hl c hc
    exact of_visited (by rw [hn]; exact mem_visited_block.2 (.inl hx)) hcov
  · obtain ⟨hon, hc⟩ := mem_visitedFinally.1 hc
    obtain ⟨x, hx, hcov⟩ := hf c hc
    refine of_visited ?_ hcov
    rw [hn]
    exact mem_visited_block.2 (.inr (mem_visitedFinally.2 ⟨hon, hx⟩))

theorem tidyBlock {s : Store} (h : s.tidyBlock? e = some e') : e.Covers e' := by
  obtain ⟨info, list, finalList, hn, rfl, -⟩ := Store.tidyBlock_cases h
  have covered {l : List Expr} {c : Expr} (hc : c ∈ tidied s.alwaysLeaves l) :
      ∃ x ∈ l, x.Covers c := by
    obtain ⟨x, hx, hbelow⟩ := below_of_mem_tidied hc
    exact ⟨x, hx, of_below hbelow⟩
  exact block hn (fun _ hc => covered hc) fun _ hc => covered hc

theorem cleanBlock (h : e.cleanBlock? = some e') : e.Covers e' := by
  obtain ⟨info, list, finalList, hn, rfl, -⟩ := cleanBlock_cases h
  exact block hn (fun c hc => ⟨c, (dropConstants_sublist _ _).subset hc, refl c⟩)
    fun c hc => ⟨c, (dropConstants_sublist _ _).subset hc, refl c⟩

end Blocks

end Covers

end Expr

/-- A rule whose nodes cover what takes their place. -/
theorem SoundRule.of_covers {rule : Store → Expr → Option Expr} {s₀ : Store}
    (hw : ∀ {s e e'}, rule s e = some e' → e'.weight ≤ e.weight)
    (h : ∀ {s e e'}, rule s e = some e' → e.Covers e') : SoundRule rule s₀ Expr.Covers where
  refl := .refl
  trans _ _ _ := .trans
  congr := .congr
  weight := hw
  sound _ := h

namespace Store

variable {s s' : Store} {e e' x : Expr}

/-- A node of the tree, or of an initializer that belongs to it, links to the function. -/
def Links (s : Store) (e : Expr) (id : FunctionId) : Prop :=
  ∃ x name, s.Meets e x ∧ x.node.link? = some (name, id)

theorem Meets.of_below (h : e.Below x) : s.Meets e x := by
  induction h with
  | here e => exact .here e
  | child hc _ ih => exact .child hc ih

theorem Meets.under {y : Expr} (h : e.Below x) (hy : s.Meets x y) : s.Meets e y := by
  induction h with
  | here => exact hy
  | child hc _ ih => exact .child hc (ih hy)

/-- What a covered tree links to, the tree that covers it links to, where initializers are covered
as well. -/
theorem Links.of_covers {id : FunctionId}
    (hinit : ∀ v i', (s'.var v).init = some i' → ∃ i, (s.var v).init = some i ∧ i.Covers i')
    (hcov : e.Covers e') (h : s'.Links e' id) : s.Links e id := by
  obtain ⟨x, name, hx, hl⟩ := h
  induction hx generalizing e with
  | here x =>
    obtain ⟨y, hy, hl⟩ := hcov.link x _ (.here x) hl
    exact ⟨y, name, .of_below hy, hl⟩
  | child hc _ ih => exact ih (hcov.to_visited hc) hl
  | @init e' v i' x hd hi _ ih =>
    obtain ⟨y, hy, hd⟩ := hcov.declared e' (.here e') v hd
    obtain ⟨i, hi, hicov⟩ := hinit v i' hi
    obtain ⟨z, name, hz, hl⟩ := ih hicov hl
    exact ⟨z, name, Meets.under hy (.init hd hi hz), hl⟩

theorem link_mem_uses {n : Node} {name : String} {id : FunctionId}
    (h : n.link? = some (name, id)) : .function id ∈ n.uses := by
  cases n <;> simp_all [Node.link?, Node.uses]

end Store

end Frontend
