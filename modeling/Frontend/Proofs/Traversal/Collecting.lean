import Frontend.Proofs.Traversal.Meets
import Frontend.Proofs.Traversal.Rewriting

/-!
# What a collector finds in declarations

A visit of a declaration by a visitor that only collects leaves the declaration alone and collects
what is in its trees. Inside a structure or an enumeration it sees the declaration without them.
-/

namespace Frontend

variable {δ : Type} {before after : Store → Expr → δ → Prop} {st st' : Visit (List δ)}

def Store.CollectedInVar (before after : Store → Expr → δ → Prop) (s : Store) (id : VarId) (d : δ) :
    Prop :=
  ∃ i, (s.var id).init = some i ∧ s.Collected before after i d

def Store.CollectedInFunction (before after : Store → Expr → δ → Prop) (s : Store)
    (id : FunctionId) (d : δ) : Prop :=
  ∃ f, s.function? id = some f ∧
    ((∃ a ∈ f.args, s.CollectedInVar before after a d) ∨
      ∃ b, f.body = some b ∧ s.Collected before after b d)

def Store.CollectedInEnum (before after : Store → Expr → δ → Prop) (s : Store) (id : EnumId)
    (d : δ) : Prop :=
  ∃ x ∈ ((s.enumeration? id).getD default).entries, ∃ e, x.2 = some e ∧
    (s.modifyEnumeration id fun e => { e with entries := [] }).Collected before after e d

def Store.CollectedInStruct (before after : Store → Expr → δ → Prop) (s : Store) (id : StructId)
    (d : δ) : Prop :=
  ∃ f ∈ ((s.struct? id).getD default).fields, ∃ e, f.init = some e ∧
    (s.modifyStruct id fun x => { x with fields := [] }).Collected before after e d

def Store.CollectedInCode (before after : Store → Expr → δ → Prop) (s : Store) (id : FunctionId)
    (d : δ) : Prop :=
  Visitor.isNative s id = false ∧ s.CollectedInFunction before after id d

def Store.CollectedInModule (before after : Store → Expr → δ → Prop) (s : Store) (m : ModuleId)
    (withGenerics : Bool) (d : δ) : Prop :=
  (∃ id ∈ (s.module m).enumerations.values, s.CollectedInEnum before after id d) ∨
    (∃ id ∈ (s.module m).structOrder, s.CollectedInStruct before after id d) ∨
    (∃ id ∈ (s.module m).globalOrder, s.CollectedInVar before after id d) ∨
    (∃ id ∈ if withGenerics then (s.module m).generics.values else [],
      s.CollectedInCode before after id d) ∨
    ∃ id ∈ (s.module m).functions.values, s.CollectedInCode before after id d

/-- What is collected of a node does not depend on initializers and bodies. -/
structure Blind (out : Store → Expr → δ → Prop) : Prop where
  detach : ∀ s id, out (s.detach id) = out s
  body : ∀ s id body, out (s.modifyFunction id fun f => { f with body }) = out s

theorem blind_nothing {δ : Type} : Blind (fun (_ : Store) (_ : Expr) (_ : δ) => False) :=
  ⟨fun _ _ => rfl, fun _ _ _ => rfl⟩

theorem Store.collected_detach (hb : Blind before) (ha : Blind after) {s : Store} {id : VarId}
    {i : Expr} (hi : (s.var id).init = some i) (d : δ) :
    (s.detach id).Collected before after i d ↔ s.Collected before after i d := by
  simp only [Collected, hb.detach, ha.detach, Meets.detach_iff hi]

theorem Store.collected_body (hb : Blind before) (ha : Blind after) (s : Store) (id : FunctionId)
    (body : Option Expr) (e : Expr) (d : δ) :
    (s.modifyFunction id fun f => { f with body }).Collected before after e d ↔
      s.Collected before after e d := by
  have meets (x : Expr) : (s.modifyFunction id fun f => { f with body }).Meets e x ↔ s.Meets e x :=
    ⟨.of_vars_eq rfl, .of_vars_eq rfl⟩
  simp only [Collected, hb.body, ha.body, meets]

section Shapes

/-- Entries with the same trees in the same places are the same. -/
theorem entries_eq_of_trees {as bs : List (String × Option Expr)}
    (h : List.Forall₂ (fun x x' : String × Option Expr =>
      x'.1 = x.1 ∧ Option.Rel (fun _ _ => True) x.2 x'.2) as bs)
    (ht : (bs.flatMap fun x => x.2.toList) = as.flatMap fun x => x.2.toList) : bs = as := by
  refine eq_of_forall₂ (S := EntryRewritten Eq) ?_ (entries_of_trees h ?_)
  · rintro ⟨name, a⟩ ⟨name', b⟩ ⟨hname, hrel⟩
    cases hname
    have hb : b = a := eq_of_rel (fun _ _ => Eq.symm) hrel
    rw [hb]
  · rw [ht]
    exact List.forall₂_refl _

theorem fields_eq_of_trees {as bs : List Field}
    (h : List.Forall₂ (fun f f' : Field =>
      ∃ i, f' = { f with init := i } ∧ Option.Rel (fun _ _ => True) f.init i) as bs)
    (ht : (bs.flatMap fun f => f.init.toList) = as.flatMap fun f => f.init.toList) : bs = as := by
  refine eq_of_forall₂ (S := Field.Rewritten Eq) ?_ (fields_of_trees h ?_)
  · rintro f _ ⟨i, rfl, hrel⟩
    rw [eq_of_rel (fun _ _ => Eq.symm) hrel]
  · rw [ht]
    exact List.forall₂_refl _

end Shapes

namespace Store

variable {s : Store}

/-- The values of an enumeration are put back as they were. -/
theorem putBack_entries {id : EnumId} {entries : List (String × Option Expr)}
    (h : entries = ((s.enumeration? id).getD default).entries) :
    ((s.modifyEnumeration id fun e => { e with entries := [] }).modifyEnumeration id
      fun e => { e with entries }) = s := by
  simp only [modifyEnumeration, Table.modify_modify]
  rw [Table.modify_eq_self]
  intro a ha
  have ha : s.enumeration? id = some a := ha
  rw [ha] at h
  simp only [Function.comp_apply, h, Option.getD_some]

theorem putBack_fields {id : StructId} {fields : List Field}
    (h : fields = ((s.struct? id).getD default).fields) :
    ((s.modifyStruct id fun x => { x with fields := [] }).modifyStruct id
      fun x => { x with fields }) = s := by
  simp only [modifyStruct, Table.modify_modify]
  rw [Table.modify_eq_self]
  intro a ha
  have ha : s.struct? id = some a := ha
  rw [ha] at h
  simp only [Function.comp_apply, h, Option.getD_some]

theorem putBack_body {id : FunctionId} {f : Function} {b : Expr} (hf : s.function? id = some f)
    (hb : f.body = some b) :
    ((s.modifyFunction id fun f => { f with body := none }).modifyFunction id
      fun f => { f with body := some b }) = s := by
  simp only [modifyFunction, Table.modify_modify]
  rw [Table.modify_eq_self]
  intro x hx
  obtain rfl : f = x := Option.some.inj (hf.symm.trans hx)
  simp only [Function.comp_apply, ← hb]

/-- What is collected in an enumeration, tree by tree. -/
theorem collectedInEnum_iff {id : EnumId} {d : δ} {entries : List (String × Option Expr)}
    (h : entries = ((s.enumeration? id).getD default).entries) :
    s.CollectedInEnum before after id d ↔ ∃ e ∈ entries.flatMap fun x => x.2.toList,
      (s.modifyEnumeration id fun e => { e with entries := [] }).Collected before after e d := by
  simp only [CollectedInEnum, ← h, List.mem_flatMap, Option.mem_toList]
  constructor
  · rintro ⟨x, hx, e, he, hd⟩
    exact ⟨e, ⟨x, hx, he⟩, hd⟩
  · rintro ⟨e, ⟨x, hx, he⟩, hd⟩
    exact ⟨x, hx, e, he, hd⟩

theorem collectedInStruct_iff {id : StructId} {d : δ} {fields : List Field}
    (h : fields = ((s.struct? id).getD default).fields) :
    s.CollectedInStruct before after id d ↔ ∃ e ∈ fields.flatMap fun f => f.init.toList,
      (s.modifyStruct id fun x => { x with fields := [] }).Collected before after e d := by
  simp only [CollectedInStruct, ← h, List.mem_flatMap, Option.mem_toList]
  constructor
  · rintro ⟨x, hx, e, he, hd⟩
    exact ⟨e, ⟨x, hx, he⟩, hd⟩
  · rintro ⟨e, ⟨x, hx, he⟩, hd⟩
    exact ⟨x, hx, e, he, hd⟩

/-- A function that is not there has nothing to collect in its arguments. -/
theorem collectedInFunction_bare {id : FunctionId} {f : Function} {d : δ}
    (hf : f = (s.function? id).getD default) (hb : f.body = none) :
    s.CollectedInFunction before after id d ↔
      ∃ a ∈ f.args, s.CollectedInVar before after a d := by
  cases hid : s.function? id with
  | none =>
    rw [hid] at hf
    have : f.args = [] := by
      rw [hf]
      rfl
    simp [CollectedInFunction, hid, this]
  | some x =>
    rw [hid] at hf
    obtain rfl : f = x := hf
    simp [CollectedInFunction, hid, hb]

end Store

namespace Collecting

theorem varChain' (hb : Blind before) (ha : Blind after) {ids : List VarId}
    (h : VarChain Eq (VarVisit (Collecting before after)) st ids st') :
    st'.store = st.store ∧ Adds (fun d => ∃ id ∈ ids, st.store.CollectedInVar before after id d)
      st.user st'.user := by
  obtain ⟨hs, hu⟩ := varChain h
  refine ⟨hs, hu.congr fun d => exists_congr fun id => and_congr_right fun _ => ?_⟩
  exact exists_congr fun i => and_congr_right fun hi => Store.collected_detach hb ha hi d

theorem varVisit (hb : Blind before) (ha : Blind after) {id : VarId}
    (h : VarVisit (Collecting before after) st id st') :
    st'.store = st.store ∧ Adds (st.store.CollectedInVar before after id) st.user st'.user := by
  obtain ⟨hs, hu⟩ := varChain' hb ha (.cons h .nil)
  exact ⟨hs, hu.congr fun d => by simp⟩

theorem functionVisit (hb : Blind before) (ha : Blind after) {id : FunctionId}
    (h : FunctionVisit (Collecting before after) id st st') :
    st'.store = st.store ∧ Adds (st.store.CollectedInFunction before after id) st.user st'.user := by
  cases h with
  | @bare f _ hf hbody hvars =>
    obtain ⟨hs, hu⟩ := varChain' hb ha hvars
    exact ⟨hs, hu.congr fun d => (Store.collectedInFunction_bare hf hbody).symm⟩
  | @body f b b' st₁ st₂ hf hbody hvars hP =>
    obtain ⟨hs, hu⟩ := varChain' hb ha hvars
    obtain ⟨rfl, hs', hu'⟩ := hP
    simp only [Visit.store_inStore, Visit.user_inStore, hs] at hs' hu'
    have back := Store.putBack_body hf hbody
    refine ⟨by rw [Visit.store_inStore, hs', back], (hu.trans hu').congr fun d => ?_⟩
    rw [Store.collected_body hb ha]
    simp [Store.CollectedInFunction, hf, hbody]

theorem codeVisit (hb : Blind before) (ha : Blind after) {id : FunctionId}
    (h : CodeVisit (Collecting before after) id st st') :
    st'.store = st.store ∧ Adds (st.store.CollectedInCode before after id) st.user st'.user := by
  unfold CodeVisit at h
  split at h
  · rename_i native
    rw [h]
    exact ⟨rfl, (Adds.nothing _).congr fun d => by simp [Store.CollectedInCode, native]⟩
  · rename_i native
    obtain ⟨hs, hu⟩ := functionVisit hb ha h
    exact ⟨hs, hu.congr fun d => by simp [Store.CollectedInCode, native]⟩

theorem enumVisit {id : EnumId} (h : EnumVisit (Collecting before after) id st st') :
    st'.store = st.store ∧ Adds (st.store.CollectedInEnum before after id) st.user st'.user := by
  cases h with
  | @mk entries entries' st₁ hentries hshape hP =>
    obtain ⟨hes, hs, hu⟩ := chain hP
    obtain rfl := entries_eq_of_trees hshape hes
    refine ⟨?_, hu.congr fun d => (Store.collectedInEnum_iff hentries).symm⟩
    simp only [Visit.store_inStore] at hs ⊢
    rw [hs, Store.putBack_entries hentries]

theorem structVisit {id : StructId} (h : StructVisit (Collecting before after) id st st') :
    st'.store = st.store ∧ Adds (st.store.CollectedInStruct before after id) st.user st'.user := by
  cases h with
  | @mk fields fields' st₁ hfields hshape hP =>
    obtain ⟨hes, hs, hu⟩ := chain hP
    obtain rfl := fields_eq_of_trees hshape hes
    refine ⟨?_, hu.congr fun d => (Store.collectedInStruct_iff hfields).symm⟩
    simp only [Visit.store_inStore] at hs ⊢
    rw [hs, Store.putBack_fields hfields]

theorem run {α : Type} {F : α → Visit (List δ) → Visit (List δ) → Prop}
    {D : Store → α → δ → Prop} {as : List α}
    (hF : ∀ a st st', F a st st' → st'.store = st.store ∧ Adds (D st.store a) st.user st'.user)
    (h : Run F as st st') :
    st'.store = st.store ∧ Adds (fun d => ∃ a ∈ as, D st.store a d) st.user st'.user := by
  induction h with
  | nil => exact ⟨rfl, (Adds.nothing _).congr (by simp)⟩
  | cons h _ ih =>
    obtain ⟨hs, hu⟩ := hF _ _ _ h
    obtain ⟨hs', hu'⟩ := ih
    rw [hs] at hs' hu'
    exact ⟨hs', (hu.trans hu').congr (by simp)⟩

/-- A visit of a module leaves it alone and collects what is in its declarations. -/
theorem moduleVisit (hb : Blind before) (ha : Blind after) {m : ModuleId} {withGenerics : Bool}
    (h : ModuleVisit (Collecting before after) m withGenerics st st') :
    st'.store = st.store ∧
      Adds (st.store.CollectedInModule before after m withGenerics) st.user st'.user := by
  obtain ⟨st₁, st₂, st₃, st₄, h₁, h₂, h₃, h₄, h₅⟩ := h
  obtain ⟨s₁, u₁⟩ := run (fun _ _ _ h => enumVisit h) h₁
  obtain ⟨s₂, u₂⟩ := run (fun _ _ _ h => structVisit h) h₂
  obtain ⟨s₃, u₃⟩ := run (fun _ _ _ h => varVisit hb ha h) h₃
  obtain ⟨s₄, u₄⟩ := run (fun _ _ _ h => codeVisit hb ha h) h₄
  obtain ⟨s₅, u₅⟩ := run (fun _ _ _ h => codeVisit hb ha h) h₅
  rw [s₁] at s₂ u₂
  rw [s₂] at s₃ u₃
  rw [s₃] at s₄ u₄
  rw [s₄] at s₅ u₅
  refine ⟨s₅, ((((u₁.trans u₂).trans u₃).trans u₄).trans u₅).congr fun d => ?_⟩
  simp only [Store.CollectedInModule, or_assoc]

end Collecting

end Frontend
