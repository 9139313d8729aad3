import Frontend.Proofs.Table
import Frontend.Proofs.Traversal.Walk

/-!
# Visits of trees and of the variables declared in them

The initializer of a declared variable is visited away from the variable, so a visit that comes back
to the variable finds none there. A way down a tree therefore gets lighter at every step, counting
the initializers that are still in place, and no visit runs out of steps.
-/

namespace Frontend

namespace Store

variable {s : Store} {id other : VarId} {i : Expr}

def detach (s : Store) (id : VarId) : Store :=
  s.modifyVariable id fun x => { x with init := none }

def attach (s : Store) (id : VarId) (i : Expr) : Store :=
  s.modifyVariable id fun x => { x with init := some i }

def VarsOnly (s s' : Store) : Prop := s' = { s with vars := s'.vars }

namespace VarsOnly

variable {s₁ s₂ : Store}

theorem refl (s : Store) : s.VarsOnly s := rfl

theorem trans (h : s.VarsOnly s₁) (h' : s₁.VarsOnly s₂) : s.VarsOnly s₂ := by
  unfold VarsOnly at *
  rw [h', h]

theorem function? (h : s.VarsOnly s₁) (id : FunctionId) : s₁.function? id = s.function? id := by
  rw [h]
  rfl

theorem module (h : s.VarsOnly s₁) (m : ModuleId) : s₁.module m = s.module m := by
  rw [h]
  rfl

end VarsOnly

theorem varsOnly_detach (s : Store) (id : VarId) : s.VarsOnly (s.detach id) := rfl

theorem varsOnly_attach (s : Store) (id : VarId) (i : Expr) : s.VarsOnly (s.attach id i) := rfl

theorem get?_of_init (h : (s.var id).init = some i) :
    ∃ x, s.vars.get? id = some x ∧ x.init = some i := by
  unfold var at h
  cases hx : s.vars.get? id with
  | none =>
    rw [hx] at h
    cases h
  | some x =>
    rw [hx] at h
    exact ⟨x, rfl, h⟩

theorem init_detach (s : Store) (id other : VarId) :
    ((s.detach id).var other).init = if other = id then none else (s.var other).init := by
  simp only [detach, modifyVariable, var, Table.get?_modify]
  by_cases same : other = id
  · rw [if_pos same, if_pos same]
    cases s.vars.get? other <;> rfl
  · rw [if_neg same, if_neg same]

theorem attach_detach (h : (s.var id).init = some i) : (s.detach id).attach id i = s := by
  obtain ⟨x, hx, hi⟩ := get?_of_init h
  simp only [attach, detach, modifyVariable, Table.modify_modify]
  rw [Table.modify_eq_self]
  intro a ha
  rw [hx] at ha
  cases ha
  simp only [Function.comp_apply, ← hi]

theorem initWeight_modify (s : Store) (id : VarId) (f : Variable → Variable) :
    (s.modifyVariable id f).initWeight +
        ((s.vars.get? id).map fun x => (x.init.map Expr.weight).getD 0).getD 0 =
      s.initWeight +
        ((s.vars.get? id).map fun x => ((f x).init.map Expr.weight).getD 0).getD 0 :=
  Table.total_toList_modify (fun x : Variable => (x.init.map Expr.weight).getD 0) s.vars id f

theorem initWeight_detach (h : (s.var id).init = some i) :
    (s.detach id).initWeight + i.weight = s.initWeight := by
  obtain ⟨x, hx, hi⟩ := get?_of_init h
  have := s.initWeight_modify id fun x => { x with init := none }
  simpa [hx, hi, detach] using this

theorem initWeight_attach_le (s : Store) (id : VarId) (i : Expr) :
    (s.attach id i).initWeight ≤ s.initWeight + i.weight := by
  have h := s.initWeight_modify id fun x => { x with init := some i }
  have : ((s.vars.get? id).map fun _ => i.weight).getD 0 ≤ i.weight := by
    cases s.vars.get? id <;> simp
  simp only [Option.map_some, Option.getD_some] at h
  unfold attach
  omega

end Store

namespace Visit

variable {σ : Type}

def inStore (st : Visit σ) (s : Store) : Visit σ := { st with store := s }

@[simp] theorem store_inStore (st : Visit σ) (s : Store) : (st.inStore s).store = s := rfl

@[simp] theorem user_inStore (st : Visit σ) (s : Store) : (st.inStore s).user = st.user := rfl

@[simp] theorem inStore_self (st : Visit σ) : st.inStore st.store = st := rfl

@[simp] theorem inStore_inStore (st : Visit σ) (s s' : Store) :
    (st.inStore s).inStore s' = st.inStore s' := rfl

end Visit

variable {σ : Type}

/-- What the visit of a declared variable does, given what visits of trees do: an initializer is
taken off, visited and put back. -/
inductive VarVisit (P : Visit σ → Expr → Expr → Visit σ → Prop) (st : Visit σ) (id : VarId) :
    Visit σ → Prop
  | blank (h : (st.store.var id).init = none) : VarVisit P st id st
  | init {i i' st'} (h : (st.store.var id).init = some i)
    (hP : P (st.inStore (st.store.detach id)) i i' st') :
    VarVisit P st id (st'.inStore (st'.store.attach id i'))

section Frames

variable {P : Visit σ → Expr → Expr → Visit σ → Prop} {st st' : Visit σ}

theorem VarVisit.initWeight_le {id : VarId}
    (hw : ∀ {st e e' st'}, P st e e' st' →
      e'.weight ≤ e.weight ∧ st'.store.initWeight ≤ st.store.initWeight)
    (h : VarVisit P st id st') : st'.store.initWeight ≤ st.store.initWeight := by
  cases h with
  | blank => exact Nat.le_refl _
  | @init i i' st' h hP =>
    have := hw hP
    have := Store.initWeight_detach h
    have := st'.store.initWeight_attach_le id i'
    simp only [Visit.store_inStore] at *
    omega

theorem VarVisit.varsOnly {id : VarId}
    (hf : ∀ {st e e' st'}, P st e e' st' → st.store.VarsOnly st'.store)
    (h : VarVisit P st id st') : st.store.VarsOnly st'.store := by
  cases h with
  | blank => exact .refl _
  | init h hP =>
    exact ((Store.varsOnly_detach _ id).trans (hf hP)).trans (Store.varsOnly_attach _ id _)

theorem VarVisit.imp {Q : Visit σ → Expr → Expr → Visit σ → Prop} {id : VarId}
    (hPQ : ∀ {st e e' st'}, P st e e' st' → Q st e e' st') (h : VarVisit P st id st') :
    VarVisit Q st id st' := by
  cases h with
  | blank h => exact .blank h
  | init h hP => exact .init h (hPQ hP)

theorem VarChain.keeps {V : Visit σ → VarId → Visit σ → Prop} {L : Visit σ → Visit σ → Prop}
    {ids : List VarId} (hr : ∀ st, L st st) (ht : ∀ {st st₁ st₂}, L st st₁ → L st₁ st₂ → L st st₂)
    (hV : ∀ {st id st'}, V st id st' → L st st') (h : VarChain Eq V st ids st') : L st st' := by
  induction h with
  | nil => exact hr _
  | idle h _ ih => rwa [h]
  | cons h _ ih => exact ht (hV h) ih

theorem Chain.keeps {L : Visit σ → Visit σ → Prop} {es es' : List Expr} (hr : ∀ st, L st st)
    (ht : ∀ {st st₁ st₂}, L st st₁ → L st₁ st₂ → L st st₂)
    (hP : ∀ {st e e' st'}, P st e e' st' → L st st') (h : Chain Eq P st es es' st') : L st st' := by
  induction h with
  | nil => exact hr _
  | idle h _ ih => rwa [h]
  | cons h _ ih => exact ht (hP h) ih

end Frames

namespace Visitor

variable {v : Visitor σ} {P : Visit σ → Expr → Expr → Visit σ → Prop} {child : Child σ}
  {st : Visit σ} {id : VarId} {place : VariablePlace}

theorem modifyStore_run (f : Store → Store) (st : Visit σ) :
    (VisitM.modifyStore f).run st = .ok ((), st.inStore (f st.store)) := rfl

theorem store_run (st : Visit σ) : (VisitM.store : VisitM σ Store).run st = .ok (st.store, st) :=
  rfl

/-- The type of a variable is away from it while the type is visited. -/
private theorem retype (s : Store) (id : VarId) :
    ((s.modifyVariable id fun x => { x with type := .blank }).modifyVariable id
      fun x => { x with type := (s.var id).type }) = s := by
  simp only [Store.modifyVariable, Table.modify_modify]
  rw [Table.modify_eq_self]
  intro x hx
  simp [Store.var, hx]

theorem visitVariable_ends (hv : v.Calm Eq)
    (hi : ∀ i, (st.store.var id).init = some i →
      Ends (child i) (st.inStore (st.store.detach id)) fun out st' =>
        ∃ i', out.1.apply out.2 = some i' ∧ P (st.inStore (st.store.detach id)) i i' st') :
    Ends (v.visitVariable child place id) st fun _ st' => VarVisit P st id st' := by
  refine .bind_run (store_run st) (.bind_run (modifyStore_run _ st) ?_)
  refine (visitType_gives hv _).bind_ends fun st₁ hst₁ => ?_
  subst hst₁
  refine .bind_run (modifyStore_run _ _) ?_
  simp only [Visit.store_inStore, Visit.inStore_inStore, retype, Visit.inStore_self]
  refine .bind_run (store_run st) ?_
  cases h : (st.store.var id).init with
  | none => exact .pure (.blank h)
  | some i =>
    refine .bind_run (modifyStore_run _ st) ?_
    refine .bind (P := fun o st' => ∃ i', o = some i' ∧
      P (st.inStore (st.store.detach id)) i i' st') ?_ ?_
    · refine (hv.enterSlot _ i).bind_ends fun st₁ hst₁ => ?_
      subst hst₁
      refine .bind (hi i h) ?_
      rintro ⟨r, i₁⟩ st₁ ⟨i', hr, hP⟩
      simp only at hr
      simp only [hr]
      refine (hv.leaveSlot _ i').bind_ends fun st₂ hst₂ => ?_
      subst hst₂
      exact .pure ⟨i', rfl, hP⟩
    · rintro _ st' ⟨i', rfl, hP⟩
      exact ⟨(), _, modifyStore_run _ st', .init h hP⟩

end Visitor

/-- Visits are well-behaved for `P`: they change no table but the variables, they make neither a tree
nor the initializers heavier, and `P` holds of the visit of a node if it holds of the visits of what
is declared in the node and of its children. -/
structure Visitor.Builds (v : Visitor σ) (P : Visit σ → Expr → Expr → Visit σ → Prop) : Prop where
  calm : v.Calm Eq
  frame : ∀ {st e e' st'}, P st e e' st' → st.store.VarsOnly st'.store
  weight : ∀ {st e e' st'}, P st e e' st' →
    e'.weight ≤ e.weight ∧ st'.store.initWeight ≤ st.store.initWeight
  node : ∀ st e, Ends (v.enter e) st fun e₁ st₁ => e₁ = e ∧ st₁.store = st.store ∧
    ∀ n' st₂ st₃, VarChain Eq (VarVisit P) st₁ e.node.declared st₂ →
      Chain Eq P st₂ e.node.visited n'.visited st₃ → e.node.Rewritten (fun _ _ => True) n' →
      Ends (v.leave { e with node := n' }) st₃ fun r st₄ =>
        ∃ e', r.apply { e with node := n' } = some e' ∧ P st e e' st₄

namespace Visitor.Builds

variable {v : Visitor σ} {P : Visit σ → Expr → Expr → Visit σ → Prop}

/-- What is known of visits may be used to show more of them. -/
theorem and {Q : Visit σ → Expr → Expr → Visit σ → Prop} (hv : v.Builds P)
    (hQ : ∀ st e, Ends (v.enter e) st fun _ st₁ => ∀ n' st₂ st₃,
      VarChain Eq (VarVisit fun st e e' st' => P st e e' st' ∧ Q st e e' st') st₁
        e.node.declared st₂ →
      Chain Eq (fun st e e' st' => P st e e' st' ∧ Q st e e' st') st₂ e.node.visited n'.visited
        st₃ →
      e.node.Rewritten (fun _ _ => True) n' →
      Ends (v.leave { e with node := n' }) st₃ fun r st₄ => ∀ e',
        r.apply { e with node := n' } = some e' → Q st e e' st₄) :
    v.Builds fun st e e' st' => P st e e' st' ∧ Q st e e' st' where
  calm := hv.calm
  frame h := hv.frame h.1
  weight h := hv.weight h.1
  node st e := by
    refine ((hv.node st e).and (hQ st e)).mono ?_
    rintro e₁ st₁ ⟨⟨same, hst, hP⟩, hQ⟩
    refine ⟨same, hst, fun n' st₂ st₃ hvars hcs hr => ?_⟩
    have leaveP := hP n' st₂ st₃ (hvars.imp (.imp And.left)) (hcs.imp And.left) hr
    refine (leaveP.and (hQ n' st₂ st₃ hvars hcs hr)).mono ?_
    rintro r st₄ ⟨⟨e', he', hP⟩, hQ⟩
    exact ⟨e', he', hP, hQ e' he'⟩

theorem varsOnly_of_varChain (hv : v.Builds P) {st st' : Visit σ} {ids : List VarId}
    (h : VarChain Eq (VarVisit P) st ids st') : st.store.VarsOnly st'.store :=
  h.keeps (L := fun st st' => st.store.VarsOnly st'.store) (fun _ => .refl _) .trans
    (VarVisit.varsOnly hv.frame)

theorem varsOnly_of_chain (hv : v.Builds P) {st st' : Visit σ} {es es' : List Expr}
    (h : Chain Eq P st es es' st') : st.store.VarsOnly st'.store :=
  h.keeps (L := fun st st' => st.store.VarsOnly st'.store) (fun _ => .refl _) .trans hv.frame

/-- A visit with enough steps ends, and what it does is built from the visits inside. -/
theorem visitIn_ends (hv : v.Builds P) (steps : Nat) (st : Visit σ) (e : Expr)
    (hs : e.weight + st.store.initWeight ≤ steps) :
    Ends (v.visitIn steps e) st fun out st' =>
      ∃ e', out.1.apply out.2 = some e' ∧ P st e e' st' := by
  induction steps generalizing st e with
  | zero =>
    have := e.weight_pos
    omega
  | succ steps ih =>
    have hchild : ∀ c ∈ e.node.visited,
        Visits (fun st' => st'.store.initWeight ≤ st.store.initWeight) P (v.visitIn steps) c := by
      intro c hc st' hst'
      have := le_total_of_mem Expr.weight hc
      have := e.total_visited_lt
      refine (ih st' c (by omega)).mono ?_
      rintro out st'' ⟨e', hr, hP⟩
      exact ⟨Nat.le_trans (hv.weight hP).2 hst', e', hr, hP⟩
    have hvar : ∀ id ∈ e.node.declared,
        v.Enters (fun st' => st'.store.initWeight ≤ st.store.initWeight) (VarVisit P)
          (v.visitIn steps) id := by
      intro id _ place st' hst'
      refine (visitVariable_ends hv.calm fun i hi => ih _ i ?_).mono fun _ st'' h =>
        ⟨Nat.le_trans (h.initWeight_le hv.weight) hst', h⟩
      have := e.weight_pos
      have := Store.initWeight_detach hi
      simp only [Visit.store_inStore]
      omega
    refine .bind (hv.node st e) ?_
    rintro e st₁ ⟨rfl, hst₁, hleave⟩
    refine .bind (walk_ends hv.calm (fun _ _ h hG => hG ▸ h) hchild hvar
      (Nat.le_of_eq (by rw [hst₁]))) ?_
    rintro n' st₃ ⟨_, hr, st₂, hvars, hcs⟩
    simp only
    refine .bind (hleave n' st₂ st₃ hvars hcs hr) ?_
    rintro r st₄ ⟨e', hr', hP⟩
    exact .pure ⟨e', hr', hP⟩

theorem le_steps (v : Visitor σ) (s : Store) (weight : Nat) :
    weight + s.initWeight ≤ v.steps s weight := by
  have := Nat.le_mul_self (s.initWeight + v.weight + weight + 1)
  simp only [steps]
  omega

/-- Visits of trees that are at most as heavy as they are said to be. -/
theorem child_ends (hv : v.Builds P) {s : Store} {weight : Nat} {st : Visit σ} {e : Expr}
    (hs : st.store.initWeight ≤ s.initWeight) (he : e.weight ≤ weight) :
    Ends (v.visitIn (v.steps s weight) e) st fun out st' =>
      ∃ e', out.1.apply out.2 = some e' ∧ P st e e' st' :=
  hv.visitIn_ends _ st e (by have := le_steps v s weight; omega)

theorem visit_ends (hv : v.Builds P) (st : Visit σ) (e : Expr) :
    Ends (v.visit e) st fun out st' => ∃ e', out.1.apply out.2 = some e' ∧ P st e e' st' :=
  .bind_run (store_run st) (hv.child_ends (Nat.le_refl _) (Nat.le_refl _))

end Visitor.Builds

end Frontend
