import Frontend.Proofs.Optimizer.Bulk
import Frontend.Proofs.Traversal.Collecting

/-!
# A pass changes something exactly where its rule applies

A pass either comes by no node that its rule applies to, and then it leaves trees and declarations
as they were, or it comes by one; then it says so, and what it leaves has less bulk.
-/

namespace Frontend

variable {rule : Store → Expr → Option Expr} {D D' : Prop} {es es' fs fs' : List Expr}
  {st st₁ st' : Visit Bool}

/-- A rule that knows functions by how they are called only, and that makes nodes lighter and less
bulky. -/
structure Diminishes (rule : Store → Expr → Option Expr) : Prop where
  callees : ∀ {s s'}, s.SameCallees s' → rule s' = rule s
  weight : ∀ {s e e'}, rule s e = some e' → e'.weight ≤ e.weight
  bulk : ∀ {s e e'}, rule s e = some e' → e'.bulk < e.bulk

def Fires (rule : Store → Expr → Option Expr) (s : Store) (e : Expr) (_ : Unit) : Prop :=
  (rule s e).isSome = true

theorem Diminishes.blind (h : Diminishes rule) : Blind (Fires rule) where
  detach s id := by
    unfold Fires
    rw [h.callees (.of_varsOnly (Store.varsOnly_detach s id))]
  body s id body := by
    unfold Fires
    rw [h.callees (.modifyBody s id body)]

namespace Store

variable (rule : Store → Expr → Option Expr) (s : Store)

abbrev FiresIn (e : Expr) : Prop := s.Collected (Fires rule) (fun _ _ _ => False) e ()

abbrev FiresInVar (id : VarId) : Prop :=
  s.CollectedInVar (Fires rule) (fun _ _ _ => False) id ()

abbrev FiresInEnum (id : EnumId) : Prop :=
  s.CollectedInEnum (Fires rule) (fun _ _ _ => False) id ()

abbrev FiresInStruct (id : StructId) : Prop :=
  s.CollectedInStruct (Fires rule) (fun _ _ _ => False) id ()

abbrev FiresInFunction (id : FunctionId) : Prop :=
  s.CollectedInFunction (Fires rule) (fun _ _ _ => False) id ()

abbrev FiresInCode (id : FunctionId) : Prop :=
  s.CollectedInCode (Fires rule) (fun _ _ _ => False) id ()

abbrev FiresInModule (m : ModuleId) (withGenerics : Bool) : Prop :=
  s.CollectedInModule (Fires rule) (fun _ _ _ => False) m withGenerics ()

end Store

/-- Either nothing has happened to the trees and the store, or something that `D` stands for has, and
trees and store together have lost bulk. -/
inductive Acted (D : Prop) (es es' : List Expr) (st st' : Visit Bool) : Prop
  | idle (h : ¬ D) (trees : es' = es) (state : st' = st)
  | fired (h : D) (user : st'.user = true)
    (bulk : total Expr.bulk es' + st'.store.bulk < total Expr.bulk es + st.store.bulk)

namespace Acted

theorem nothing : Acted False [] [] st st := .idle id rfl rfl

theorem congr (h : Acted D es es' st st') (hD : D ↔ D') : Acted D' es es' st st' := by
  rwa [← hD]

/-- One after the other. What stands for the second part is told before the first one, as nothing
has changed by then or the first part has happened. -/
theorem append {E : Store → Prop} (h : Acted D es es' st st₁)
    (h' : Acted (E st₁.store) fs fs' st₁ st') :
    Acted (D ∨ E st.store) (es ++ fs) (es' ++ fs') st st' := by
  cases h with
  | idle hD trees state =>
    subst trees state
    cases h' with
    | idle hD' trees state =>
      subst trees state
      exact .idle (fun h => h.elim hD hD') rfl rfl
    | fired hD' user bulk =>
      refine .fired (.inr hD') user ?_
      simp only [total_append]
      omega
  | fired hD user bulk =>
    cases h' with
    | idle _ trees state =>
      subst trees state
      refine .fired (.inl hD) user ?_
      simp only [total_append]
      omega
    | fired _ user' bulk' =>
      refine .fired (.inl hD) user' ?_
      simp only [total_append]
      omega

/-- Declarations whose trees are not held apart, one after the other. -/
theorem trans {E : Store → Prop} (h : Acted D [] [] st st₁)
    (h' : Acted (E st₁.store) [] [] st₁ st') : Acted (D ∨ E st.store) [] [] st st' :=
  h.append h'

theorem run {α : Type} {F : α → Visit Bool → Visit Bool → Prop} {D : Store → α → Prop}
    {as : List α} (hF : ∀ a st st', F a st st' → Acted (D st.store a) [] [] st st')
    (h : Run F as st st') : Acted (∃ a ∈ as, D st.store a) [] [] st st' := by
  induction h with
  | nil => exact nothing.congr (by simp)
  | @cons a as st st₁ st₂ h _ ih =>
    exact ((hF _ _ _ h).trans (E := fun s => ∃ a ∈ as, D s a) ih).congr (by simp)

end Acted

def Acting (rule : Store → Expr → Option Expr) (s₀ : Store) (st : Visit Bool) (e e' : Expr)
    (st' : Visit Bool) : Prop :=
  Rewriting (fun _ _ => True) s₀ st e e' st' ∧
    Acted (st.store.FiresIn rule e) [e] [e'] st st'

namespace Acting

variable {s₀ : Store} (hR : Diminishes rule)

include hR in
theorem varVisit {id : VarId} (h : VarVisit (Acting rule s₀) st id st') :
    Acted (st.store.FiresInVar rule id) [] [] st st' := by
  cases h with
  | blank h =>
    refine .idle ?_ rfl rfl
    rintro ⟨i, hi, _⟩
    rw [h] at hi
    cases hi
  | @init i i' st₁ hi hP =>
    have same : st.store.FiresInVar rule id ↔
        (st.store.detach id).FiresIn rule i := by
      refine .trans ?_ (Store.collected_detach hR.blind blind_nothing hi ()).symm
      simp [Store.CollectedInVar, hi]
    rw [same]
    cases hP.2 with
    | idle hD trees state =>
      cases trees
      subst state
      refine .idle hD rfl ?_
      simp only [Visit.store_inStore, Visit.inStore_inStore, Store.attach_detach hi,
        Visit.inStore_self]
    | fired hD user bulk =>
      refine .fired hD user ?_
      have hdetach := st.store.bulk_modifyInit id none
      have hattach := st₁.store.bulk_modifyInit id (some i')
      rw [hi] at hdetach
      simp only [total_cons, total_nil, Visit.store_inStore, Store.detach, Store.attach,
        Store.optionBulk, Option.map_some, Option.map_none, Option.getD_some,
        Option.getD_none] at bulk hdetach hattach ⊢
      omega

include hR in
theorem varChain {ids : List VarId} (h : VarChain Eq (VarVisit (Acting rule s₀)) st ids st') :
    Acted (∃ id ∈ ids, st.store.FiresInVar rule id)
      [] [] st st' := by
  induction h with
  | nil => exact Acted.nothing.congr (by simp)
  | idle h _ ih => rwa [h]
  | @cons st st₁ st₂ id ids h _ ih =>
    exact ((varVisit hR h).trans (E := fun s => ∃ id ∈ ids,
      s.FiresInVar rule id) ih).congr (by simp)

theorem chain (h : Chain Eq (Acting rule s₀) st es es' st') :
    Acted (∃ e ∈ es, st.store.FiresIn rule e) es es' st st' := by
  induction h with
  | nil => exact Acted.nothing.congr (by simp)
  | idle h _ ih => rwa [h]
  | @cons st st₁ st₂ e e' es es' h _ ih =>
    exact (h.2.append (E := fun s => ∃ e ∈ es,
      s.FiresIn rule e) ih).congr (by simp)

/-- A node is kept if the rule does not apply, and else the pass says so. -/
theorem leave_ends (e : Expr) (st : Visit Bool) :
    Ends ((rewriting rule).leave e) st fun r st' => st'.store = st.store ∧
      ∃ e', r.apply e = some e' ∧
        (rule st.store e = none ∧ e' = e ∧ st' = st ∨
          rule st.store e = some e' ∧ st'.user = true) := by
  refine .bind_run (Visitor.store_run st) ?_
  cases hrule : rule st.store e with
  | none => exact .pure ⟨rfl, e, rfl, .inl ⟨rfl, rfl, rfl⟩⟩
  | some e' => exact ⟨_, _, rfl, rfl, e', rfl, .inr ⟨rfl, rfl⟩⟩

include hR in
/-- A rule applies in a tree at the top, in what the top declares or in a child. -/
theorem collected_iff {s : Store} {e : Expr} :
    s.FiresIn rule e ↔ (rule s e).isSome = true ∨
      (∃ id ∈ e.node.declared, s.FiresInVar rule id) ∨
        ∃ c ∈ e.node.visited, s.FiresIn rule c := by
  have hvar (id : VarId) : (∃ i, (s.var id).init = some i ∧
      (s.detach id).FiresIn rule i) ↔
        s.FiresInVar rule id :=
    exists_congr fun i => and_congr_right fun hi =>
      Store.collected_detach hR.blind blind_nothing hi ()
  refine (Store.collected_iff (hR.blind.detach _) fun _ => rfl).trans ?_
  simp only [hvar, or_false, or_assoc]
  rfl

include hR in
theorem builds (s₀ : Store) : (rewriting rule).Builds (Acting rule s₀) := by
  refine (Rewriting.builds (.trivial hR.weight)).and fun st e => ?_
  refine .pure fun n' st₂ st₃ hvars hcs hr => ?_
  have hvisits := (varChain hR hvars).append (E := fun s => ∃ c ∈ e.node.visited,
    s.FiresIn rule c) (chain hcs)
  have hnode := collected_iff hR (s := st.store) (e := e)
  have hbulk := Expr.bulk_of_rewritten hr
  refine (leave_ends _ st₃).mono ?_
  rintro r st₄ ⟨hstore, e₁, hr₁, hrule⟩ e' he'
  obtain rfl : e₁ = e' := Option.some.inj (hr₁.symm.trans he')
  cases hvisits with
  | idle hnone trees state =>
    subst state
    have hn : n' = e.node := by
      refine (hr.of_visited (R := Eq) ?_).eq
      rw [show n'.visited = e.node.visited from trees]
      exact List.forall₂_refl _
    have he : { e with node := n' } = e := by
      cases e
      cases hn
      rfl
    rw [he] at hrule
    rcases hrule with ⟨hno, rfl, rfl⟩ | ⟨hrule, user⟩
    · refine .idle (fun h => (hnode.1 h).elim (fun h => ?_) hnone) rfl rfl
      rw [hno] at h
      cases h
    · refine .fired (hnode.2 (.inl (by rw [hrule]; rfl))) user ?_
      have := hR.bulk hrule
      rw [hstore]
      simp only [total_cons, total_nil]
      omega
  | fired hsome user bulk =>
    have hle : e₁.bulk ≤ Expr.bulk { e with node := n' } := by
      rcases hrule with ⟨-, rfl, -⟩ | ⟨hrule, -⟩
      · exact Nat.le_refl _
      · exact Nat.le_of_lt (hR.bulk hrule)
    have user' : st₄.user = true := by
      rcases hrule with ⟨-, -, rfl⟩ | ⟨-, user'⟩
      · exact user
      · exact user'
    refine .fired (hnode.2 (.inr hsome)) user' ?_
    rw [hstore]
    simp only [total_cons, total_nil, List.nil_append] at bulk ⊢
    omega

theorem enumVisit {id : EnumId} (h : EnumVisit (Acting rule s₀) id st st') :
    Acted (st.store.FiresInEnum rule id) [] [] st st' := by
  cases h with
  | @mk entries entries' st₁ hentries hshape hP =>
    have hclear := st.store.bulk_modifyEntries id []
    have hput := st₁.store.bulk_modifyEntries id entries'
    rw [← hentries] at hclear
    refine .congr ?_ (Store.collectedInEnum_iff hentries).symm
    cases chain hP with
    | idle hnone trees state =>
      obtain rfl := entries_eq_of_trees hshape trees
      subst state
      refine .idle hnone rfl ?_
      simp only [Visit.store_inStore, Visit.inStore_inStore, Store.putBack_entries hentries,
        Visit.inStore_self]
    | fired hsome user bulk =>
      refine .fired hsome user ?_
      simp only [total_nil, Visit.store_inStore, List.flatMap_nil] at bulk hclear ⊢
      omega

theorem structVisit {id : StructId} (h : StructVisit (Acting rule s₀) id st st') :
    Acted (st.store.FiresInStruct rule id) [] [] st st' := by
  cases h with
  | @mk fields fields' st₁ hfields hshape hP =>
    have hclear := st.store.bulk_modifyFields id []
    have hput := st₁.store.bulk_modifyFields id fields'
    rw [← hfields] at hclear
    refine .congr ?_ (Store.collectedInStruct_iff hfields).symm
    cases chain hP with
    | idle hnone trees state =>
      obtain rfl := fields_eq_of_trees hshape trees
      subst state
      refine .idle hnone rfl ?_
      simp only [Visit.store_inStore, Visit.inStore_inStore, Store.putBack_fields hfields,
        Visit.inStore_self]
    | fired hsome user bulk =>
      refine .fired hsome user ?_
      simp only [total_nil, Visit.store_inStore, List.flatMap_nil] at bulk hclear ⊢
      omega

include hR in
theorem functionVisit {id : FunctionId} (h : FunctionVisit (Acting rule s₀) id st st') :
    Acted (st.store.FiresInFunction rule id) [] [] st st' := by
  cases h with
  | bare hf hbody hvars =>
    exact (varChain hR hvars).congr (Store.collectedInFunction_bare hf hbody).symm
  | @body f b b' st₁ st₂ hf hbody hvars hP =>
    have hframe : st.store.VarsOnly st₁.store :=
      hvars.keeps (L := fun st st' => st.store.VarsOnly st'.store) (fun _ => .refl _) .trans
        (VarVisit.varsOnly fun h => h.1.frame)
    have hf₁ : st₁.store.function? id = some f := by rw [hframe.function?, hf]
    have hbare : Acted (st₁.store.FiresIn rule b) [] [] st₁
        (st₂.inStore (st₂.store.modifyFunction id fun f => { f with body := some b' })) := by
      have hclear := st₁.store.bulk_modifyBody id none
      have hput := st₂.store.bulk_modifyBody id (some b')
      rw [hf₁, Option.getD_some, hbody] at hclear
      refine .congr ?_ (Store.collected_body hR.blind blind_nothing _ id none b ())
      cases hP.2 with
      | idle hnone trees state =>
        cases trees
        subst state
        refine .idle hnone rfl ?_
        simp only [Visit.store_inStore, Visit.inStore_inStore, Store.putBack_body hf₁ hbody,
          Visit.inStore_self]
      | fired hsome user bulk =>
        refine .fired hsome user ?_
        simp only [total_cons, total_nil, Visit.store_inStore, Store.optionBulk, Option.map_some,
          Option.map_none, Option.getD_some, Option.getD_none] at bulk hclear hput ⊢
        omega
    refine ((varChain hR hvars).trans (E := fun s =>
      s.FiresIn rule b) hbare).congr ?_
    simp [Store.CollectedInFunction, hf, hbody]

include hR in
theorem codeVisit {id : FunctionId} (h : CodeVisit (Acting rule s₀) id st st') :
    Acted (st.store.FiresInCode rule id) [] [] st st' := by
  unfold CodeVisit at h
  split at h
  · rename_i native
    exact .idle (by simp [Store.CollectedInCode, native]) rfl h
  · rename_i native
    exact (functionVisit hR h).congr (by simp [Store.CollectedInCode, native])

include hR in
/-- A visit of a module changes something exactly if the rule applies somewhere in it. -/
theorem moduleVisit {m : ModuleId} {withGenerics : Bool}
    (h : ModuleVisit (Acting rule s₀) m withGenerics st st') :
    Acted (st.store.FiresInModule rule m withGenerics)
      [] [] st st' := by
  obtain ⟨st₁, st₂, st₃, st₄, h₁, h₂, h₃, h₄, h₅⟩ := h
  let structs (s : Store) := ∃ id ∈ (st.store.module m).structOrder, s.FiresInStruct rule id
  let globals (s : Store) := ∃ id ∈ (st.store.module m).globalOrder, s.FiresInVar rule id
  let generics (s : Store) :=
    ∃ id ∈ if withGenerics then (st.store.module m).generics.values else [], s.FiresInCode rule id
  let functions (s : Store) := ∃ id ∈ (st.store.module m).functions.values, s.FiresInCode rule id
  have a₁ := Acted.run (D := fun s id => s.FiresInEnum rule id) (fun _ _ _ h => enumVisit h) h₁
  have a₂ := Acted.run (D := fun s id => s.FiresInStruct rule id) (fun _ _ _ h => structVisit h) h₂
  have a₃ := Acted.run (D := fun s id => s.FiresInVar rule id) (fun _ _ _ h => varVisit hR h) h₃
  have a₄ := Acted.run (D := fun s id => s.FiresInCode rule id) (fun _ _ _ h => codeVisit hR h) h₄
  have a₅ := Acted.run (D := fun s id => s.FiresInCode rule id) (fun _ _ _ h => codeVisit hR h) h₅
  have code := a₄.trans (E := functions) a₅
  have vars := a₃.trans (E := fun s => generics s ∨ functions s) code
  have fields := a₂.trans (E := fun s => globals s ∨ generics s ∨ functions s) vars
  exact a₁.trans (E := fun s => structs s ∨ globals s ∨ generics s ∨ functions s) fields

end Acting

section Rules

theorem Diminishes.cancelReference : Diminishes fun _ => Expr.cancelReference? where
  callees _ := rfl
  weight := Expr.weight_cancelReference
  bulk := Expr.bulk_cancelReference

theorem Diminishes.cleanBlock : Diminishes fun _ => Expr.cleanBlock? where
  callees _ := rfl
  weight := Expr.weight_cleanBlock
  bulk := Expr.bulk_cleanBlock

theorem Diminishes.foldConstant : Diminishes Store.foldConstant? where
  callees h := h.foldConstant?
  weight := Store.weight_foldConstant
  bulk := Store.bulk_foldConstant

theorem Diminishes.chooseBranch : Diminishes Store.chooseBranch? where
  callees h := h.chooseBranch?
  weight := Store.weight_chooseBranch
  bulk := Store.bulk_chooseBranch

theorem Diminishes.tidyBlock : Diminishes Store.tidyBlock? where
  callees h := h.tidyBlock?
  weight := Store.weight_tidyBlock
  bulk := Store.bulk_tidyBlock

end Rules

namespace Program

def Fires (rule : Store → Expr → Option Expr) (p : Program) : Prop :=
  p.store.FiresInModule rule p.this false

/-- A pass says that it changes something exactly if its rule applies somewhere, and what it changes
gets less bulky. Otherwise it only drops what nothing owns. -/
theorem rewrite_acts (hR : Diminishes rule) (p : Program) :
    Ends (rewrite rule) p fun changed p' => ∃ s, p' = (p.inStore s).collect ∧
      s.modules = p.store.modules ∧
      ((changed = false ∧ ¬ p.Fires rule ∧ s = p.store) ∨
        (changed = true ∧ p.Fires rule ∧ s.bulk < p.store.bulk)) := by
  have sound : SoundRule rule p.store fun _ _ => True := .trivial hR.weight
  have kept := Visitor.visitModule_ends (Rewriting.builds sound) p.this false ⟨p.store, false⟩
  have acts := Visitor.visitModule_ends (Acting.builds hR p.store) p.this false ⟨p.store, false⟩
  refine (walk_ends (Q := fun st =>
    ModuleVisit (Rewriting (fun _ _ => True) p.store) p.this false ⟨p.store, false⟩ st ∧
      ModuleVisit (Acting rule p.store) p.this false ⟨p.store, false⟩ st) (kept.and acts)).mono ?_
  rintro _ p' ⟨st, ⟨hkept, hacts⟩, rfl, hp'⟩
  have hmodules := (Rewriting.moduleVisit sound hkept (.refl _)).modules
  refine ⟨st.store, hp', hmodules, ?_⟩
  cases Acting.moduleVisit hR hacts with
  | idle hno _ state =>
    subst state
    exact .inl ⟨rfl, hno, rfl⟩
  | fired hyes user bulk =>
    simp only [total_nil, Nat.zero_add] at bulk
    exact .inr ⟨user, hyes, bulk⟩

end Program

end Frontend
