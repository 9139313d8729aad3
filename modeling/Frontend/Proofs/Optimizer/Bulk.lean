import Frontend.Optimizer.Rounds
import Frontend.Proofs.Optimizer.Shrinking
import Frontend.Proofs.Ownership

/-!
# Rules make trees less bulky

The bulk of a tree counts a literal once and every other node twice. Each rule puts a tree of less
bulk in the place of a node: a child, a literal for an operator, an empty block for a statement with
children, or the block itself with fewer statements.
-/

namespace Frontend

theorem total_add_length_le_of_sublist {α : Type} {f : α → Nat} (hf : ∀ a, 0 < f a)
    {as bs : List α} (h : as.Sublist bs) : total f as + bs.length ≤ total f bs + as.length := by
  induction h with
  | slnil => exact Nat.le_refl _
  | cons b _ ih =>
    have := hf b
    simp only [total_cons, List.length_cons]
    omega
  | cons_cons a _ ih =>
    simp only [total_cons, List.length_cons]
    omega

namespace Expr

variable {e e' : Expr}

theorem bulk_eq (e : Expr) : e.bulk =
    (if e.isLiteral then 1 else 2) + (total bulk e.node.visited + total bulk e.node.skipped) :=
  size_eq (fun x => if x.isLiteral then 1 else 2) e

theorem bulk_pos (e : Expr) : 0 < e.bulk := by
  rw [bulk_eq]
  split <;> omega

theorem bulk_eq_of_not_literal (h : e.isLiteral = false) :
    e.bulk = 2 + (total bulk e.node.visited + total bulk e.node.skipped) := by
  rw [bulk_eq, h, if_neg Bool.false_ne_true]

theorem bulk_lt_of_visited {c : Expr} (h : c ∈ e.node.visited) : c.bulk < e.bulk := by
  have := le_total_of_mem bulk h
  rw [bulk_eq e]
  split <;> omega

/-- New children change the bulk of a node by what they count. -/
theorem bulk_of_rewritten {n : Node} (h : e.node.Rewritten (fun _ _ => True) n) :
    bulk { e with node := n } + total bulk e.node.visited = e.bulk + total bulk n.visited := by
  have literal : isLiteral { e with node := n } = e.isLiteral := by
    obtain ⟨span, type, flags, node⟩ := e
    cases h <;> rfl
  rw [bulk_eq, bulk_eq e, literal]
  simp only [h.skipped_eq]
  omega

theorem bulk_cancelReference (h : e.cancelReference? = some e') : e'.bulk < e.bulk := by
  obtain ⟨c, hc, h⟩ := cancelReference_cases h
  have hlt := bulk_lt_of_visited hc
  rcases h with rfl | h
  · exact hlt
  · exact Nat.lt_trans (bulk_lt_of_visited h) hlt

section Blocks

variable {info : BlockInfo} {list finalList : List Expr}

theorem bulk_of_block (h : e.node = .block info list finalList) :
    e.bulk = 2 + (total bulk list + total bulk finalList) := by
  have own : e.isLiteral = false := by rw [isLiteral, h]
  have := size_of_block (fun x => if x.isLiteral then 1 else 2) h
  rw [own, if_neg Bool.false_ne_true] at this
  exact this

theorem bulk_cleanBlock (h : e.cleanBlock? = some e') : e'.bulk < e.bulk := by
  obtain ⟨info, list, finalList, hn, rfl, hshorter⟩ := cleanBlock_cases h
  have hsub := dropConstants_sublist info.yieldsValue list
  have hsub' := dropConstants_sublist false finalList
  have h₁ := total_add_length_le_of_sublist bulk_pos hsub
  have h₂ := total_add_length_le_of_sublist bulk_pos hsub'
  have hlen := hsub.length_le
  have hlen' := hsub'.length_le
  rw [bulk_of_block hn, bulk_of_block rfl]
  omega

theorem inlinedSize_pos (h : list.any isInlineable = true) :
    0 < total (inlinedSize fun x => if x.isLiteral then 1 else 2) list := by
  obtain ⟨e, he, hinline⟩ := List.any_eq_true.1 h
  have := le_total_of_mem (inlinedSize fun x => if x.isLiteral then 1 else 2) he
  have own : 0 < inlinedSize (fun x => if x.isLiteral then 1 else 2) e := by
    rw [inlinedSize, if_pos hinline]
    split <;> decide
  omega

/-- Statements that are tidied gain no bulk, and they lose some if one is inlined or dropped. -/
theorem bulk_tidied (leaves : Expr → Bool) (list : List Expr) :
    total bulk (tidied leaves list) ≤ total bulk list ∧
      (list.any isInlineable = true ∨ (tidied leaves list).length ≠ (inlineAll list).length →
        total bulk (tidied leaves list) < total bulk list) := by
  have hsub : (tidied leaves list).Sublist (inlineAll list) := reachable_sublist _ _ _
  have hreach := total_add_length_le_of_sublist bulk_pos hsub
  have hlen := hsub.length_le
  have hinline : total bulk (inlineAll list) +
      total (inlinedSize fun x => if x.isLiteral then 1 else 2) list ≤ total bulk list :=
    (flattens_inlineAll list).total_le _
  refine ⟨by omega, fun h => ?_⟩
  rcases h with h | h
  · have := inlinedSize_pos h
    omega
  · omega

end Blocks

end Expr

namespace Store

variable {s : Store} {e e' : Expr}

theorem bulk_foldConstant (h : s.foldConstant? e = some e') : e'.bulk < e.bulk := by
  obtain ⟨own, hliteral⟩ := foldConstant_cases h
  obtain ⟨span, type, flags, node⟩ := e'
  have hone : Expr.bulk ⟨span, type, flags, node⟩ = 1 := by
    unfold Expr.isLiteral at hliteral
    split at hliteral
    · rename_i hn
      cases hn
      rfl
    · cases hliteral
  rw [hone, Expr.bulk_eq_of_not_literal own]
  omega

theorem bulk_chooseBranch (h : s.chooseBranch? e = some e') : e'.bulk < e.bulk := by
  rcases chooseBranch_cases h with hc | ⟨own, ⟨c, hc⟩, rfl⟩
  · exact Expr.bulk_lt_of_visited hc
  · have hempty : (Expr.emptyBlock e.span).bulk = 2 := rfl
    have := le_total_of_mem Expr.bulk hc
    have := c.bulk_pos
    rw [hempty, Expr.bulk_eq_of_not_literal own]
    omega

theorem bulk_tidyBlock (h : s.tidyBlock? e = some e') : e'.bulk < e.bulk := by
  obtain ⟨info, list, finalList, hn, rfl, l, hl, htidy⟩ := tidyBlock_cases h
  obtain ⟨hle, hlt⟩ := Expr.bulk_tidied s.alwaysLeaves list
  obtain ⟨hle', hlt'⟩ := Expr.bulk_tidied s.alwaysLeaves finalList
  rw [Expr.bulk_of_block hn, Expr.bulk_of_block rfl]
  simp only [List.mem_cons, List.not_mem_nil, or_false] at hl
  rcases hl with rfl | rfl
  · have := hlt htidy
    omega
  · have := hlt' htidy
    omega

section Declarations

def optionBulk (e : Option Expr) : Nat := (e.map Expr.bulk).getD 0

theorem total_optionBulk {α : Type} (g : α → Option Expr) (l : List α) :
    total (fun x => optionBulk (g x)) l = total Expr.bulk (l.flatMap fun x => (g x).toList) := by
  induction l with
  | nil => rfl
  | cons x l ih =>
    rw [List.flatMap_cons, total_append, total_cons, ih]
    cases g x <;> simp [optionBulk]

/-- What a change of one object adds to a total, where an absent object counts as `d`. -/
theorem total_modify_le {kind : ObjectKind} {α : Type} (f : α → Nat) {g : α → α} {d : α}
    (hd : f d ≤ f (g d)) (t : Table kind α) (id : Id kind) :
    total (fun x => f x.2) (t.modify id g).toList + f ((t.get? id).getD d) ≤
      total (fun x => f x.2) t.toList + f (g ((t.get? id).getD d)) := by
  have := Table.total_toList_modify f t id g
  cases h : t.get? id with
  | none =>
    rw [h] at this
    simp only [Option.map_none, Option.getD_none] at this ⊢
    omega
  | some a =>
    rw [h] at this
    simp only [Option.map_some, Option.getD_some, Function.comp_apply] at this ⊢
    omega

theorem bulk_modifyInit (s : Store) (id : VarId) (init : Option Expr) :
    (s.modifyVariable id fun x => { x with init }).bulk + optionBulk (s.var id).init ≤
      s.bulk + optionBulk init := by
  have := total_modify_le (fun x : Variable => 1 + optionBulk x.init)
    (g := fun x => { x with init }) (d := default) (Nat.le_add_right _ _) s.vars id
  simp only [bulk, modifyVariable, var, optionBulk] at this ⊢
  omega

theorem bulk_modifyBody (s : Store) (id : FunctionId) (body : Option Expr) :
    (s.modifyFunction id fun f => { f with body }).bulk +
        optionBulk ((s.function? id).getD default).body ≤ s.bulk + optionBulk body := by
  have := total_modify_le (fun f : Function => 1 + optionBulk f.body)
    (g := fun f => { f with body }) (d := default) (Nat.le_add_right _ _) s.functions id
  simp only [bulk, modifyFunction, function?, optionBulk] at this ⊢
  omega

theorem bulk_modifyEntries (s : Store) (id : EnumId) (entries : List (String × Option Expr)) :
    (s.modifyEnumeration id fun e => { e with entries }).bulk +
        total Expr.bulk
          (((s.enumeration? id).getD default).entries.flatMap fun x => x.2.toList) ≤
      s.bulk + total Expr.bulk (entries.flatMap fun x => x.2.toList) := by
  have := total_modify_le (fun e : Enumeration => total (fun x => optionBulk x.2) e.entries)
    (g := fun e => { e with entries }) (d := default) (Nat.zero_le _) s.enumerations id
  rw [← total_optionBulk, ← total_optionBulk]
  simp only [bulk, modifyEnumeration, enumeration?, optionBulk] at this ⊢
  omega

theorem bulk_modifyFields (s : Store) (id : StructId) (fields : List Field) :
    (s.modifyStruct id fun x => { x with fields }).bulk +
        total Expr.bulk (((s.struct? id).getD default).fields.flatMap fun f => f.init.toList) ≤
      s.bulk + total Expr.bulk (fields.flatMap fun f => f.init.toList) := by
  have := total_modify_le (fun x : Struct => total (fun f => optionBulk f.init) x.fields)
    (g := fun x => { x with fields }) (d := default) (Nat.zero_le _) s.structs id
  rw [← total_optionBulk, ← total_optionBulk]
  simp only [bulk, modifyStruct, struct?, optionBulk] at this ⊢
  omega

end Declarations

section Collections

theorem total_owned_le {kind : ObjectKind} {α : Type} (f : Id kind × α → Nat) (t : Table kind α)
    (ids : List (Id kind)) : total f (t.owned ids).toList ≤ total f t.toList := by
  rw [Table.owned, Table.toList_restrict]
  exact total_le_of_sublist f List.filter_sublist

theorem bulk_sweep_le (s : Store) (outside : Holdings) : (s.sweep outside).bulk ≤ s.bulk := by
  have hfunctions := total_owned_le (fun x => 1 + optionBulk x.2.body) s.functions
    (outside ++ s.holdings).functions
  have hvars := total_owned_le (fun x => 1 + optionBulk x.2.init) s.vars
    (outside ++ s.holdings).vars
  have hstructs := total_owned_le (fun x => total (fun f => optionBulk f.init) x.2.fields)
    s.structs (outside ++ s.holdings).structs
  have henums := total_owned_le (fun x => total (fun entry => optionBulk entry.2) x.2.entries)
    s.enumerations (outside ++ s.holdings).enumerations
  simp only [bulk, sweep, optionBulk] at *
  omega

theorem bulk_collect_le (s : Store) (outside : Holdings) : (s.collect outside).bulk ≤ s.bulk :=
  collect_induction (Q := fun t => t.bulk ≤ s.bulk) (Nat.le_refl _) fun t ht =>
    Nat.le_trans (bulk_sweep_le t outside) ht

end Collections

end Store

end Frontend
