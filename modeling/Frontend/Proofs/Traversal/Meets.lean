import Frontend.Proofs.Traversal.Initializers

/-!
# What a visit of a tree comes by

`Store.Meets` relates a tree to everything below it: its children without `finally` sections that are
turned off, and the initializers of the variables that its nodes declare, however the trees refer to
each other. A visitor that only collects comes by all of it.
-/

namespace Frontend

/-- `x` is the tree itself, below a visited child, or below the initializer of a variable that the
node declares. -/
inductive Store.Meets (s : Store) : Expr → Expr → Prop
  | here (e) : s.Meets e e
  | child {e c x} (hc : c ∈ e.node.visited) (h : s.Meets c x) : s.Meets e x
  | init {e id i x} (hd : id ∈ e.node.declared) (hi : (s.var id).init = some i)
    (h : s.Meets i x) : s.Meets e x

namespace Store.Meets

variable {s : Store} {e x : Expr} {id : VarId}

theorem of_detach (h : (s.detach id).Meets e x) : s.Meets e x := by
  induction h with
  | here e => exact .here e
  | child hc _ ih => exact .child hc ih
  | init hd hi _ ih =>
    rw [init_detach] at hi
    split at hi
    · cases hi
    · exact .init hd hi ih

/-- A way to `x` that goes by the initializer of a variable goes by it for the last time. -/
theorem detach_or (h : s.Meets e x) (id : VarId) :
    (s.detach id).Meets e x ∨ ∃ i, (s.var id).init = some i ∧ (s.detach id).Meets i x := by
  induction h with
  | here e => exact .inl (.here e)
  | child hc _ ih => exact ih.imp_left (.child hc)
  | @init e other i x hd hi _ ih =>
    by_cases same : other = id
    · subst same
      refine .inr ⟨i, hi, ?_⟩
      rcases ih with h | ⟨i', hi', h⟩
      · exact h
      · rw [hi] at hi'
        cases hi'
        exact h
    · refine ih.imp_left fun h => .init hd ?_ h
      rw [init_detach, if_neg same, hi]

theorem of_vars_eq {s' : Store} (hv : s'.vars = s.vars) (h : s'.Meets e x) : s.Meets e x := by
  induction h with
  | here e => exact .here e
  | child hc _ ih => exact .child hc ih
  | init hd hi _ ih =>
    refine .init hd ?_ ih
    rwa [Store.var, ← hv]

/-- Below the initializer of a variable nothing is met through the variable itself. -/
theorem detach_iff {i : Expr} (hi : (s.var id).init = some i) :
    (s.detach id).Meets i x ↔ s.Meets i x := by
  refine ⟨of_detach, fun h => ?_⟩
  rcases h.detach_or id with h | ⟨i', hi', h⟩
  · exact h
  · rw [hi] at hi'
    cases hi'
    exact h

end Store.Meets

/-- One step into a tree: what is met in the initializer of a declared variable is met without it. -/
theorem Store.meets_iff {s : Store} {e x : Expr} :
    s.Meets e x ↔ x = e ∨ (∃ c ∈ e.node.visited, s.Meets c x) ∨
      ∃ id ∈ e.node.declared, ∃ i, (s.var id).init = some i ∧ (s.detach id).Meets i x := by
  constructor
  · intro h
    cases h with
    | here => exact .inl rfl
    | child hc h => exact .inr (.inl ⟨_, hc, h⟩)
    | @init _ id i _ hd hi h => exact .inr (.inr ⟨id, hd, i, hi, (Meets.detach_iff hi).2 h⟩)
  · rintro (rfl | ⟨c, hc, h⟩ | ⟨id, hd, i, hi, h⟩)
    · exact .here x
    · exact .child hc h
    · exact .init hd hi h.of_detach

def Adds {δ : Type} (d : δ → Prop) (u u' : List δ) : Prop := ∀ a, a ∈ u' ↔ a ∈ u ∨ d a

namespace Adds

variable {δ : Type} {d d' : δ → Prop} {u u₁ u₂ : List δ}

theorem nothing (u : List δ) : Adds (fun _ => False) u u := fun a => by simp

theorem trans (h : Adds d u u₁) (h' : Adds d' u₁ u₂) : Adds (fun a => d a ∨ d' a) u u₂ := by
  intro a
  rw [h' a, h a, or_assoc]

theorem congr (h : Adds d u u₁) (hd : ∀ a, d a ↔ d' a) : Adds d' u u₁ := by
  intro a
  rw [h a, hd a]

end Adds

variable {δ : Type}

/-- A visitor that keeps all it sees and collects what `before` says of a node as it enters it and
what `after` says of it as it leaves it. Neither looks at the initializers of variables. -/
structure Visitor.Collects (v : Visitor (List δ)) (before after : Store → Expr → δ → Prop) :
    Prop where
  calm : v.Calm Eq
  enter : ∀ e st, Ends (v.enter e) st fun e' st' =>
    e' = e ∧ st'.store = st.store ∧ Adds (before st.store e) st.user st'.user
  leave : ∀ e st, Ends (v.leave e) st fun r st' =>
    r = .keep ∧ st'.store = st.store ∧ Adds (after st.store e) st.user st'.user
  before_detach : ∀ s id, before (s.detach id) = before s
  after_detach : ∀ s id, after (s.detach id) = after s

def Store.Collected (before after : Store → Expr → δ → Prop) (s : Store) (e : Expr) (d : δ) :
    Prop :=
  ∃ x, s.Meets e x ∧ (before s x d ∨ after s x d)

/-- The visit leaves the tree and the store alone and collects exactly what is in the tree. -/
def Collecting (before after : Store → Expr → δ → Prop) (st : Visit (List δ)) (e e' : Expr)
    (st' : Visit (List δ)) : Prop :=
  e' = e ∧ st'.store = st.store ∧ Adds (st.store.Collected before after e) st.user st'.user

namespace Collecting

variable {before after : Store → Expr → δ → Prop} {st st' : Visit (List δ)} {ids : List VarId}
  {es es' : List Expr}

theorem varChain (h : VarChain Eq (VarVisit (Collecting before after)) st ids st') :
    st'.store = st.store ∧ Adds (fun d => ∃ id ∈ ids, ∃ i, (st.store.var id).init = some i ∧
      (st.store.detach id).Collected before after i d) st.user st'.user := by
  induction h with
  | nil => exact ⟨rfl, (Adds.nothing _).congr (by simp)⟩
  | idle h _ ih => rwa [h]
  | @cons st st₁ st₂ id ids h _ ih =>
    obtain ⟨hs, ha⟩ := ih
    cases h with
    | blank h => exact ⟨hs, ha.congr (by simp [h])⟩
    | init h hP =>
      obtain ⟨rfl, hst', ha'⟩ := hP
      simp only [Visit.store_inStore, Visit.user_inStore] at hs ha ha' hst'
      rw [hst', Store.attach_detach h] at hs ha
      exact ⟨hs, (ha'.trans ha).congr (by simp [h])⟩

theorem chain (h : Chain Eq (Collecting before after) st es es' st') :
    es' = es ∧ st'.store = st.store ∧
      Adds (fun d => ∃ e ∈ es, st.store.Collected before after e d) st.user st'.user := by
  induction h with
  | nil => exact ⟨rfl, rfl, (Adds.nothing _).congr (by simp)⟩
  | idle h _ ih => rwa [h]
  | cons h _ ih =>
    obtain ⟨rfl, hs, ha⟩ := ih
    obtain ⟨rfl, hs', ha'⟩ := h
    rw [hs'] at hs ha
    exact ⟨rfl, hs, (ha'.trans ha).congr (by simp)⟩

end Collecting

theorem Store.collected_iff {before after : Store → Expr → δ → Prop} {s : Store} {e : Expr} {d : δ}
    (hb : ∀ id, before (s.detach id) = before s) (ha : ∀ id, after (s.detach id) = after s) :
    s.Collected before after e d ↔
      ((before s e d ∨ ∃ id ∈ e.node.declared, ∃ i, (s.var id).init = some i ∧
          (s.detach id).Collected before after i d) ∨
        ∃ c ∈ e.node.visited, s.Collected before after c d) ∨ after s e d := by
  simp only [Collected, hb, ha]
  constructor
  · rintro ⟨x, hx, hd⟩
    rcases meets_iff.1 hx with rfl | ⟨c, hc, h⟩ | ⟨id, hid, i, hi, h⟩
    · exact hd.imp (.inl ∘ .inl) id
    · exact .inl (.inr ⟨c, hc, x, h, hd⟩)
    · exact .inl (.inl (.inr ⟨id, hid, i, hi, x, h, hd⟩))
  · rintro (((hd | ⟨id, hid, i, hi, x, h, hd⟩) | ⟨c, hc, x, h, hd⟩) | hd)
    · exact ⟨e, .here e, .inl hd⟩
    · exact ⟨x, .init hid hi h.of_detach, hd⟩
    · exact ⟨x, .child hc h, hd⟩
    · exact ⟨e, .here e, .inr hd⟩

/-- Visits of a collector leave trees and store alone and collect exactly what they come by. -/
theorem Visitor.Collects.builds {v : Visitor (List δ)} {before after : Store → Expr → δ → Prop}
    (hv : v.Collects before after) : v.Builds (Collecting before after) where
  calm := hv.calm
  frame := by
    rintro st e e' st' ⟨_, hs, _⟩
    rw [hs]
    exact .refl _
  weight := by
    rintro st e e' st' ⟨rfl, hs, _⟩
    exact ⟨Nat.le_refl _, Nat.le_of_eq (by rw [hs])⟩
  node st e := by
    refine (hv.enter e st).mono ?_
    rintro e st₁ ⟨rfl, hs₁, ha₁⟩
    refine ⟨rfl, hs₁, fun n' st₂ st₃ hvars hcs hr => ?_⟩
    obtain ⟨hs₂, ha₂⟩ := Collecting.varChain hvars
    obtain ⟨hes, hs₃, ha₃⟩ := Collecting.chain hcs
    rw [hr.expr_eq hes]
    refine (hv.leave e st₃).mono ?_
    rintro r st₄ ⟨hr₄, hs₄, ha₄⟩
    refine ⟨e, by rw [hr₄]; rfl, rfl, ?_, ?_⟩
    · rw [hs₄, hs₃, hs₂, hs₁]
    · rw [hs₃] at ha₄
      rw [hs₂] at ha₃ ha₄
      rw [hs₁] at ha₂ ha₃ ha₄
      refine (((ha₁.trans ha₂).trans ha₃).trans ha₄).congr fun d => ?_
      exact (Store.collected_iff (hv.before_detach _) (hv.after_detach _)).symm

end Frontend
