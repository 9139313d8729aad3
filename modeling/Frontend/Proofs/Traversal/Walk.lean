import Frontend.Proofs.Traversal.Ends
import Frontend.Proofs.Traversal.Weight
import Frontend.Traversal.Walk

/-!
# What a walk of a node does

The hooks of a calm visitor keep what they are called on; only the hooks of whole nodes are left
open. The walk of a node by such a visitor enters the declared variables, then the visited children
in order, and puts the visited children back in their places. `Chain` is the sequence of the visits
of a list of trees with what the other hooks do in between.
-/

namespace Frontend

variable {σ : Type}

/-- The work gives `a`, and takes the state where `G` allows it. -/
def Gives {α : Type} (G : Visit σ → Visit σ → Prop) (m : VisitM σ α) (a : α) : Prop :=
  ∀ st, ∃ st', m.run st = .ok (a, st') ∧ G st st'

/-- All hooks but those of whole nodes keep what they see and change the state by `G` at most. -/
structure Visitor.Calm (v : Visitor σ) (G : Visit σ → Visit σ → Prop) : Prop where
  refl : ∀ st, G st st
  trans : ∀ {st₁ st₂ st₃}, G st₁ st₂ → G st₂ st₃ → G st₁ st₃
  enterSlot : ∀ slot e, Gives G (v.enterSlot slot e) ()
  leaveSlot : ∀ slot e, Gives G (v.leaveSlot slot e) .keep
  enterField : ∀ slot f, Gives G (v.enterField slot f) ()
  leaveField : ∀ slot f, Gives G (v.leaveField slot f) .keep
  enterVariable : ∀ place id last, Gives G (v.enterVariable place id last) ()
  leaveVariable : ∀ place id last, Gives G (v.leaveVariable place id last) .keep
  enterType : ∀ t, Gives G (v.enterType t) t
  leaveType : ∀ t, Gives G (v.leaveType t) t
  leaveStruct : ∀ id, Gives G (v.leaveStruct id) .keep
  leaveEnum : ∀ id, Gives G (v.leaveEnum id) .keep
  leaveFunction : ∀ id, Gives G (v.leaveFunction id) .keep
  allows : ∀ gate, Gives G (v.allows gate) true
  notice : ∀ notice, Gives G (v.notice notice) ()

theorem Visitor.Calm.pure {v : Visitor σ} {G : Visit σ → Visit σ → Prop} (hv : v.Calm G)
    {α : Type} (a : α) : Gives G (Pure.pure a) a :=
  fun st => ⟨st, rfl, hv.refl st⟩

theorem Visitor.Calm.bind {v : Visitor σ} {G : Visit σ → Visit σ → Prop} (hv : v.Calm G)
    {α β : Type} {m : VisitM σ α} {a : α} {f : α → VisitM σ β}
    {b : β} (h : Gives G m a) (hf : Gives G (f a) b) : Gives G (m >>= f) b := by
  intro st
  obtain ⟨st₁, hm, hG₁⟩ := h st
  obtain ⟨st₂, hb, hG₂⟩ := hf st₁
  refine ⟨st₂, ?_, hv.trans hG₁ hG₂⟩
  rw [StateT.run_bind, hm]
  exact hb

theorem Visitor.calm_of_nodes (enter : Expr → VisitM σ Expr)
    (leave : Expr → VisitM σ (Rewrite Expr)) (weight : Nat) :
    Visitor.Calm { enter, leave, weight } Eq := by
  constructor
  case refl => exact fun _ => rfl
  case trans => exact Eq.trans
  all_goals
    intros
    exact fun st => ⟨st, rfl, rfl⟩

/-- Trees visited one after the other: `P` relates the state before a visit, the tree, what is left
in its place and the state after it. -/
inductive Chain (G : Visit σ → Visit σ → Prop) (P : Visit σ → Expr → Expr → Visit σ → Prop) :
    Visit σ → List Expr → List Expr → Visit σ → Prop
  | nil {st} : Chain G P st [] [] st
  | idle {st st₁ st₂ es es'} (h : G st st₁) (hs : Chain G P st₁ es es' st₂) :
    Chain G P st es es' st₂
  | cons {st st₁ st₂ e e' es es'} (h : P st e e' st₁) (hs : Chain G P st₁ es es' st₂) :
    Chain G P st (e :: es) (e' :: es') st₂

inductive VarChain (G : Visit σ → Visit σ → Prop) (V : Visit σ → VarId → Visit σ → Prop) :
    Visit σ → List VarId → Visit σ → Prop
  | nil {st} : VarChain G V st [] st
  | idle {st st₁ st₂ ids} (h : G st st₁) (hs : VarChain G V st₁ ids st₂) : VarChain G V st ids st₂
  | cons {st st₁ st₂ id ids} (h : V st id st₁) (hs : VarChain G V st₁ ids st₂) :
    VarChain G V st (id :: ids) st₂

namespace Chain

variable {G : Visit σ → Visit σ → Prop} {P : Visit σ → Expr → Expr → Visit σ → Prop}
  {st st₁ st₂ : Visit σ} {e e' : Expr} {es es' fs fs' : List Expr}

theorem single (h : P st e e' st₁) : Chain G P st [e] [e'] st₁ := .cons h .nil

theorem idle_only (h : G st st₁) : Chain G P st [] [] st₁ := .idle h .nil

theorem append (h : Chain G P st es es' st₁) (hf : Chain G P st₁ fs fs' st₂) :
    Chain G P st (es ++ fs) (es' ++ fs') st₂ := by
  induction h with
  | nil => exact hf
  | idle h _ ih => exact .idle h (ih hf)
  | cons h _ ih => exact .cons h (ih hf)

theorem idle_after (h : Chain G P st es es' st₁) (hG : G st₁ st₂) : Chain G P st es es' st₂ := by
  simpa using h.append (idle_only hG)

theorem forall₂ (h : Chain G P st es es' st₁) : List.Forall₂ (fun _ _ => True) es es' := by
  induction h with
  | nil => exact .nil
  | idle _ _ ih => exact ih
  | cons _ _ ih => exact .cons trivial ih

theorem imp {Q : Visit σ → Expr → Expr → Visit σ → Prop}
    (hPQ : ∀ {st e e' st'}, P st e e' st' → Q st e e' st') (h : Chain G P st es es' st₁) :
    Chain G Q st es es' st₁ := by
  induction h with
  | nil => exact .nil
  | idle h _ ih => exact .idle h ih
  | cons h _ ih => exact .cons (hPQ h) ih

end Chain

namespace VarChain

variable {G : Visit σ → Visit σ → Prop} {V : Visit σ → VarId → Visit σ → Prop}
  {st st₁ st₂ : Visit σ} {id : VarId} {ids : List VarId}

theorem imp {W : Visit σ → VarId → Visit σ → Prop} (hVW : ∀ {st id st'}, V st id st' → W st id st')
    (h : VarChain G V st ids st₁) : VarChain G W st ids st₁ := by
  induction h with
  | nil => exact .nil
  | idle h _ ih => exact .idle h ih
  | cons h _ ih => exact .cons (hVW h) ih

end VarChain

/-- The visit of a child that starts where `I` holds leaves something in its place, and `P` and `I`
hold afterwards. -/
def Visits (I : Visit σ → Prop) (P : Visit σ → Expr → Expr → Visit σ → Prop)
    (child : Visitor.Child σ) (e : Expr) : Prop :=
  ∀ st, I st → Ends (child e) st fun out st' =>
    I st' ∧ ∃ e', out.1.apply out.2 = some e' ∧ P st e e' st'

theorem Gives.ends {α : Type} {G : Visit σ → Visit σ → Prop} {m : VisitM σ α} {a : α}
    {st : Visit σ} {Q : α → Visit σ → Prop} (h : Gives G m a) (hQ : ∀ st', G st st' → Q a st') :
    Ends m st Q := by
  obtain ⟨st', hm, hG⟩ := h st
  exact ⟨a, st', hm, hQ st' hG⟩

/-- Everything goes on after work of a hook. -/
theorem Gives.bind_ends {α β : Type} {G : Visit σ → Visit σ → Prop} {m : VisitM σ α} {a : α}
    {f : α → VisitM σ β} {st : Visit σ} {S : β → Visit σ → Prop} (h : Gives G m a)
    (hf : ∀ st', G st st' → Ends (f a) st' S) : Ends (m >>= f) st S := by
  obtain ⟨st', hm, hG⟩ := h st
  exact .bind_run hm (hf st' hG)

namespace Visitor

section Pieces

variable {v : Visitor σ} {G : Visit σ → Visit σ → Prop} (hv : v.Calm G) {I : Visit σ → Prop}
  (hI : ∀ st st', I st → G st st' → I st') {P : Visit σ → Expr → Expr → Visit σ → Prop}
  {child : Child σ} {st : Visit σ} {e : Expr}

theorem required_of_child {Q : Expr → Visit σ → Prop}
    (he : Ends (child e) st fun out st' => ∃ e', out.1.apply out.2 = some e' ∧ Q e' st') :
    Ends (required child e) st Q := by
  refine .bind he ?_
  rintro ⟨r, e₁⟩ st' ⟨e', hr, hQ⟩
  simp only at hr
  simp only [hr]
  exact .pure hQ

theorem required_ends (he : Visits I P child e) (hst : I st) :
    Ends (required child e) st fun e' st' => I st' ∧ Chain G P st [e] [e'] st' := by
  refine required_of_child ((he st hst).mono ?_)
  rintro _ _ ⟨hI', e', hr, hP⟩
  exact ⟨e', hr, hI', .single hP⟩

include hv hI in
theorem requiredIn_ends {slot : Slot} (he : Visits I P child e) (hst : I st) :
    Ends (v.requiredIn child slot e) st fun e' st' => I st' ∧ Chain G P st [e] [e'] st' := by
  refine (hv.enterSlot slot e).bind_ends fun st₁ hG => ?_
  refine (required_ends (G := G) he (hI _ _ hst hG)).mono ?_
  rintro _ _ ⟨hI', hc⟩
  exact ⟨hI', .idle hG hc⟩

theorem optional_ends {o : Option Expr} (ho : ∀ e ∈ o, Visits I P child e) (hst : I st) :
    Ends (optional child o) st fun o' st' =>
      I st' ∧ Chain G P st o.toList o'.toList st' ∧ Option.Rel (fun _ _ => True) o o' := by
  cases o with
  | none => exact .pure ⟨hst, .nil, .none⟩
  | some e =>
    refine .bind (ho e rfl st hst) ?_
    rintro ⟨r, e₁⟩ st' ⟨hI', e', hr, hP⟩
    simp only at hr
    simp only [hr]
    exact .pure ⟨hI', .single hP, .some trivial⟩

include hv hI in
theorem inSlot_ends {slot : Slot} (he : Visits I P child e) (hst : I st) :
    Ends (v.inSlot child slot e) st fun o st' =>
      ∃ e', o = some e' ∧ I st' ∧ Chain G P st [e] [e'] st' := by
  refine (hv.enterSlot slot e).bind_ends fun st₁ hG₁ => ?_
  refine .bind (he st₁ (hI _ _ hst hG₁)) ?_
  rintro ⟨r, e₁⟩ st₂ ⟨hI₂, e', hr, hP⟩
  simp only at hr
  simp only [hr]
  refine (hv.leaveSlot slot e').bind_ends fun st₃ hG₃ => ?_
  exact .pure ⟨e', rfl, hI _ _ hI₂ hG₃, .idle hG₁ (.cons hP (.idle_only hG₃))⟩

section Types

variable {α : Type} {visit : α → VisitM σ α}

include hv

theorem mapM_gives {as : List α} (ha : ∀ a ∈ as, Gives G (visit a) a) :
    Gives G (as.mapM visit) as := by
  induction as with
  | nil => exact hv.pure []
  | cons a as ih =>
    rw [List.mapM_cons]
    refine hv.bind (ha a (.head _)) ?_
    exact hv.bind (ih fun b hb => ha b (.tail _ hb)) (hv.pure (a :: as))

theorem optionMapM_gives {o : Option α} (ho : ∀ a ∈ o, Gives G (visit a) a) :
    Gives G (o.mapM visit) o := by
  cases o with
  | none => exact hv.pure none
  | some a =>
    rw [Option.mapM_some, map_eq_pure_bind]
    exact hv.bind (ho a rfl) (hv.pure (some a))

theorem mapNested_gives {visit : Ty → VisitM σ Ty} {t : Ty}
    (ht : ∀ u ∈ t.nested, Gives G (visit u) u) : Gives G (mapNested visit t) t := by
  have first : Gives G (t.first.mapM visit) t.first :=
    optionMapM_gives hv fun u hu => ht u (by simp [Ty.nested, Option.mem_def.1 hu])
  have second : Gives G (t.second.mapM visit) t.second :=
    optionMapM_gives hv fun u hu => ht u (by simp [Ty.nested, Option.mem_def.1 hu])
  have args : Gives G (t.args.mapM visit) t.args :=
    mapM_gives hv fun u hu => ht u (List.mem_append_right _ hu)
  cases t
  exact hv.bind first (hv.bind second (hv.bind args (hv.pure _)))

/-- A type is left as it is, with a step for each of its levels. -/
theorem visitTypeIn_gives (steps : Nat) (t : Ty) (enough : t.depth ≤ steps) :
    Gives G (v.visitTypeIn steps t) t := by
  induction steps generalizing t with
  | zero =>
    rw [Ty.depth_eq] at enough
    omega
  | succ steps ih =>
    have nested : ∀ u ∈ t.nested, Gives G (v.visitTypeIn steps u) u := by
      intro u hu
      have := Ty.depth_lt_of_mem_nested hu
      exact ih u (by omega)
    exact hv.bind (hv.enterType t) (hv.bind (mapNested_gives hv nested) (hv.leaveType t))

theorem visitType_gives (t : Ty) : Gives G (v.visitType t) t :=
  visitTypeIn_gives hv _ t (Nat.le_add_right t.depth v.weight)

theorem visitTypeOption_gives (o : Option Ty) : Gives G (v.visitTypeOption o) o :=
  optionMapM_gives hv fun t _ => visitType_gives hv t

end Types

/-- A list each element of which holds the trees `E a` and keeps its shape `T`. -/
theorem visitEach_ends {α : Type} {f : Nat → Bool → α → VisitM σ (Option α)}
    {E : α → List Expr} {T : α → α → Prop} {as : List α} {i : Nat}
    (hf : ∀ i last, ∀ a ∈ as, ∀ st, I st → Ends (f i last a) st fun b st' =>
      ∃ b', b = some b' ∧ I st' ∧ T a b' ∧ Chain G P st (E a) (E b') st') (hst : I st) :
    Ends (visitEach f i as) st fun bs st' =>
      I st' ∧ List.Forall₂ T as bs ∧ Chain G P st (as.flatMap E) (bs.flatMap E) st' := by
  induction as generalizing i st with
  | nil => exact .pure ⟨hst, .nil, .nil⟩
  | cons a as ih =>
    refine .bind (hf i as.isEmpty a (.head _) st hst) fun b st₁ hb => ?_
    obtain ⟨b', rfl, hI₁, hT, hc⟩ := hb
    refine .bind (ih (fun i last a ha => hf i last a (.tail _ ha)) hI₁) fun bs st₂ hbs => ?_
    obtain ⟨hI₂, hTs, hcs⟩ := hbs
    exact .pure ⟨hI₂, .cons hT hTs, hc.append hcs⟩

include hv hI in
theorem inSlots_ends {slot : Nat → Bool → Slot} {es : List Expr}
    (hes : ∀ e ∈ es, Visits I P child e) (hst : I st) :
    Ends (v.inSlots child slot es) st fun es' st' => I st' ∧ Chain G P st es es' st' := by
  refine (visitEach_ends (E := fun e => [e]) (T := fun _ _ => True) (G := G) (P := P)
    (fun i last e he st hst => ?_) hst).mono ?_
  · refine (inSlot_ends hv hI (hes e he) hst).mono ?_
    rintro o st' ⟨e', ho, hI', hc⟩
    exact ⟨e', ho, hI', trivial, hc⟩
  · rintro es' st' ⟨hI', _, hc⟩
    exact ⟨hI', by simpa using hc⟩

include hv hI in
theorem fields_ends {slot : Nat → Bool → FieldSlot} {fs : List FieldInit}
    (hfs : ∀ f ∈ fs, Visits I P child f.value) (hst : I st) :
    Ends (v.fields child slot fs) st fun fs' st' =>
      I st' ∧ List.Forall₂ (FieldInit.Rewritten fun _ _ => True) fs fs' ∧
        Chain G P st (fs.map (·.value)) (fs'.map (·.value)) st' := by
  simp only [List.map_eq_flatMap]
  refine visitEach_ends (fun i last f hf st hst => ?_) hst
  refine (hv.enterField _ f).bind_ends fun st₁ hG₁ => ?_
  refine .bind (required_ends (G := G) (hfs f hf) (hI _ _ hst hG₁)) ?_
  rintro e' st₂ ⟨hI₂, hc⟩
  refine (hv.leaveField _ _).bind_ends fun st₃ hG₃ => ?_
  refine .pure ⟨{ f with value := e' }, rfl, hI _ _ hI₂ hG₃, ?_, .idle hG₁ (hc.idle_after hG₃)⟩
  cases f
  exact .mk trivial

include hv hI in
theorem rows_ends {rows : List (List FieldInit)}
    (hrows : ∀ fs ∈ rows, ∀ f ∈ fs, Visits I P child f.value) (hst : I st) :
    Ends (visitEach (v.row child) 0 rows) st fun rows' st' => I st' ∧
      List.Forall₂ (List.Forall₂ (FieldInit.Rewritten fun _ _ => True)) rows rows' ∧
        Chain G P st (rows.flatMap fun fs => fs.map (·.value))
          (rows'.flatMap fun fs => fs.map (·.value)) st' := by
  refine visitEach_ends (fun i last fs hfs st hst => ?_) hst
  refine (hv.notice _).bind_ends fun st₁ hG₁ => ?_
  refine .bind (fields_ends hv hI (hrows fs hfs) (hI _ _ hst hG₁)) ?_
  rintro fs' st₂ ⟨hI₂, hT, hc⟩
  refine (hv.notice _).bind_ends fun st₃ hG₃ => ?_
  exact .pure ⟨fs', rfl, hI _ _ hI₂ hG₃, hT, .idle hG₁ (hc.idle_after hG₃)⟩

include hv hI in
theorem loopSources_ends {sources : List Expr} (hs : ∀ e ∈ sources, Visits I P child e)
    (hst : I st) :
    Ends (visitEach (fun _ last e => v.loopSource child last e) 0 sources) st fun es' st' =>
      I st' ∧ Chain G P st sources es' st' := by
  refine (visitEach_ends (E := fun e => [e]) (T := fun _ _ => True) (G := G) (P := P)
    (fun i last e he st hst => ?_) hst).mono ?_
  · refine (hv.enterSlot _ e).bind_ends fun st₁ hG₁ => ?_
    refine .bind (required_ends (G := G) (hs e he) (hI _ _ hst hG₁)) ?_
    rintro e' st₂ ⟨hI₂, hc⟩
    refine (hv.leaveSlot _ e').bind_ends fun st₃ hG₃ => ?_
    exact .pure ⟨e', rfl, hI _ _ hI₂ hG₃, trivial, .idle hG₁ (hc.idle_after hG₃)⟩
  · rintro es' st' ⟨hI', _, hc⟩
    exact ⟨hI', by simpa using hc⟩

include hv hI in
theorem finallySection_ends {info : BlockInfo} {finalList : List Expr}
    (hf : ∀ e ∈ visitedFinally info finalList, Visits I P child e) (hst : I st) :
    Ends (v.finallySection child info finalList) st fun finalList' st' =>
      I st' ∧ (info.finallyDisabled = true → finalList' = finalList) ∧
        Chain G P st (visitedFinally info finalList) (visitedFinally info finalList') st' := by
  unfold finallySection
  by_cases off : info.finallyDisabled = true
  · simp only [off, Bool.or_true, if_pos, visitedFinally]
    exact .pure ⟨hst, fun _ => rfl, .nil⟩
  · simp only [visitedFinally, if_neg off] at hf ⊢
    by_cases none : finalList.isEmpty = true
    · obtain rfl := List.isEmpty_iff.1 none
      simp only [List.isEmpty_nil, Bool.true_or, if_pos]
      exact .pure ⟨hst, fun _ => rfl, .nil⟩
    · simp only [none, off, Bool.or_self, Bool.false_eq_true, if_false]
      refine (hv.notice _).bind_ends fun st₁ hG₁ => ?_
      refine .bind (inSlots_ends hv hI hf (hI _ _ hst hG₁)) ?_
      rintro es' st₂ ⟨hI₂, hc⟩
      refine (hv.notice _).bind_ends fun st₃ hG₃ => ?_
      exact .pure ⟨hI _ _ hI₂ hG₃, False.elim, .idle hG₁ (hc.idle_after hG₃)⟩

variable {V : Visit σ → VarId → Visit σ → Prop} {id : VarId} {ids : List VarId}

def Enters (v : Visitor σ) (I : Visit σ → Prop) (V : Visit σ → VarId → Visit σ → Prop)
    (child : Child σ) (id : VarId) : Prop :=
  ∀ place st, I st → Ends (v.visitVariable child place id) st fun _ st' => I st' ∧ V st id st'

theorem visitEach_vars_ends {f : Nat → Bool → VarId → VisitM σ (Option VarId)} {i : Nat}
    (hf : ∀ i last, ∀ id ∈ ids, ∀ st, I st → Ends (f i last id) st fun b st' =>
      b = some id ∧ I st' ∧ ∀ rest st₂, VarChain G V st' rest st₂ →
        VarChain G V st (id :: rest) st₂) (hst : I st) :
    Ends (visitEach f i ids) st fun ids' st' => ids' = ids ∧ I st' ∧ VarChain G V st ids st' := by
  induction ids generalizing i st with
  | nil => exact .pure ⟨rfl, hst, .nil⟩
  | cons id ids ih =>
    refine .bind (hf i ids.isEmpty id (.head _) st hst) ?_
    rintro b st₁ ⟨hb, hI₁, hc⟩
    refine .bind (ih (fun i last id h => hf i last id (.tail _ h)) hI₁) fun ids' st₂ h => ?_
    obtain ⟨rfl, hI₂, hcs⟩ := h
    subst hb
    exact .pure ⟨rfl, hI₂, hc _ _ hcs⟩

include hv hI in
theorem declared_ends {place : VariablePlace} {last : Bool} (hp : place ≠ .loop)
    (hid : v.Enters I V child id) (hst : I st) :
    Ends (v.declared child place last id) st fun b st' => b = some id ∧ I st' ∧
      ∀ rest st₂, VarChain G V st' rest st₂ → VarChain G V st (id :: rest) st₂ := by
  refine (hv.enterVariable place id last).bind_ends fun st₁ hG₁ => ?_
  simp only [hp, ne_eq, not_false_eq_true, if_true]
  refine .bind (hid place st₁ (hI _ _ hst hG₁)) ?_
  rintro _ st₂ ⟨hI₂, hV⟩
  refine (hv.leaveVariable place id last).bind_ends fun st₃ hG₃ => ?_
  exact .pure ⟨rfl, hI _ _ hI₂ hG₃, fun rest st₄ hc => .idle hG₁ (.cons hV (.idle hG₃ hc))⟩

include hv hI in
theorem removableVariables_ends {place : VariablePlace} (hp : place ≠ .loop)
    (hids : ∀ id ∈ ids, v.Enters I V child id) (hst : I st) :
    Ends (v.removableVariables child place ids) st fun ids' st' =>
      ids' = ids ∧ I st' ∧ VarChain G V st ids st' :=
  visitEach_vars_ends (fun _ _ id h _ hst => declared_ends hv hI hp (hids id h) hst) hst

include hv hI in
theorem fixedVariables_ends {place : VariablePlace} (hp : place ≠ .loop)
    (hids : ∀ id ∈ ids, v.Enters I V child id) (hst : I st) :
    Ends (v.fixedVariables child place ids) st fun ids' st' =>
      ids' = ids ∧ I st' ∧ VarChain G V st ids st' := by
  refine visitEach_vars_ends (fun i last id h st hst => ?_) hst
  refine .bind (declared_ends hv hI hp (hids id h) hst) ?_
  rintro b st₁ ⟨hb, hI₁, hc⟩
  subst hb
  exact .pure ⟨rfl, hI₁, hc⟩

include hv in
theorem visitEach_gives {α : Type} {f : Nat → Bool → α → VisitM σ (Option α)} {as : List α}
    (hf : ∀ i last a, Gives G (f i last a) (some a)) (i : Nat) : Gives G (visitEach f i as) as := by
  induction as generalizing i with
  | nil => exact hv.pure []
  | cons a as ih => exact hv.bind (hf i _ a) (hv.bind (ih (i + 1)) (hv.pure _))

include hv in
/-- The iterators of a loop are told and not entered. -/
theorem iterators_gives : Gives G (v.fixedVariables child .loop ids) ids := by
  refine visitEach_gives hv (fun i last id => ?_) 0
  refine hv.bind (a := some id) ?_ (hv.pure (some id))
  refine hv.bind (hv.enterVariable .loop id last) ?_
  simp only [ne_eq, not_true_eq_false, if_false]
  exact hv.bind (hv.leaveVariable .loop id last) (hv.pure (some id))

/-- The node `n'` is what a walk of `n` that started at `st` leaves: the declared variables of `n`
were entered, then its children were visited in order and put back in their places. -/
def Leaves (I : Visit σ → Prop) (G : Visit σ → Visit σ → Prop)
    (P : Visit σ → Expr → Expr → Visit σ → Prop) (V : Visit σ → VarId → Visit σ → Prop)
    (st : Visit σ) (n n' : Node) (st' : Visit σ) : Prop :=
  I st' ∧ n.Rewritten (fun _ _ => True) n' ∧
    ∃ st₁, VarChain G V st n.declared st₁ ∧ Chain G P st₁ n.visited n'.visited st'

section Nodes

variable {n n' : Node} {st₁ st₂ st' : Visit σ} {e' left right : Expr} {o : Option Expr}
  {es : List Expr} {α : Type} {work : VisitM σ α} {a : α} {f : α → VisitM σ Node}

theorem leaves_of_chain (bare : n.declared = []) (hst : I st')
    (shape : n.Rewritten (fun _ _ => True) n') (children : Chain G P st n.visited n'.visited st') :
    Leaves I G P V st n n' st' := by
  refine ⟨hst, shape, st, ?_, children⟩
  rw [bare]
  exact .nil

include hI in
/-- A walk may begin with a hook, or with types. -/
theorem idle_leaves (h : Gives G work a)
    (hf : ∀ st₁, I st₁ → Ends (f a) st₁ (Leaves I G P V st₁ n)) (hst : I st) :
    Ends (work >>= f) st (Leaves I G P V st n) := by
  refine h.bind_ends fun st₁ hG => ?_
  refine (hf st₁ (hI _ _ hst hG)).mono ?_
  rintro n' st' ⟨hI', shape, st₂, vars, children⟩
  exact ⟨hI', shape, st₂, .idle hG vars, children⟩

theorem leaf_leaves (bare : n.declared = []) (shape : n.Rewritten (fun _ _ => True) n)
    (leaf : n.visited = []) (hst : I st) : Ends (pure n) st (Leaves I G P V st n) := by
  refine .pure (leaves_of_chain bare hst shape ?_)
  rw [leaf]
  exact .nil

/-- A node around one child. -/
theorem one_leaves {make : Expr → Node} (he : Visits I P child e)
    (bare : (make e).declared = []) (visited : ∀ e, (make e).visited = [e])
    (shape : ∀ e', (make e).Rewritten (fun _ _ => True) (make e')) (hst : I st) :
    Ends (do return make (← required child e)) st (Leaves I G P V st (make e)) := by
  refine .bind (required_ends (G := G) he hst) ?_
  rintro e' st' ⟨hI', chain⟩
  refine .pure (leaves_of_chain bare hI' (shape e') ?_)
  rw [visited, visited]
  exact chain

/-- A node around a child that may be missing. -/
theorem optional_leaves {make : Option Expr → Node} (ho : ∀ e ∈ o, Visits I P child e)
    (bare : (make o).declared = []) (visited : ∀ o, (make o).visited = o.toList)
    (shape : ∀ o', Option.Rel (fun _ _ => True) o o' →
      (make o).Rewritten (fun _ _ => True) (make o')) (hst : I st) :
    Ends (do return make (← optional child o)) st (Leaves I G P V st (make o)) := by
  refine .bind (optional_ends (G := G) ho hst) ?_
  rintro o' st' ⟨hI', chain, rel⟩
  refine .pure (leaves_of_chain bare hI' (shape o' rel) ?_)
  rw [visited, visited]
  exact chain

include hv hI

/-- A node around two children, of which the second one has a place with a hook. -/
theorem two_leaves {make : Expr → Expr → Node} {slot : Slot}
    (hl : Visits I P child left) (hr : Visits I P child right)
    (bare : (make left right).declared = []) (visited : ∀ l r, (make l r).visited = [l, r])
    (shape : ∀ l r, (make left right).Rewritten (fun _ _ => True) (make l r)) (hst : I st) :
    Ends (do
      let l ← required child left
      return make l (← v.requiredIn child slot right)) st (Leaves I G P V st (make left right)) := by
  refine .bind (required_ends (G := G) hl hst) ?_
  rintro l st₁ ⟨hI₁, hc₁⟩
  refine .bind (requiredIn_ends hv hI hr hI₁) ?_
  rintro r st₂ ⟨hI₂, hc₂⟩
  refine .pure (leaves_of_chain bare hI₂ (shape l r) ?_)
  rw [visited, visited]
  exact hc₁.append hc₂

/-- A node around a list of children. -/
theorem list_leaves {make : List Expr → Node} {slot : Nat → Bool → Slot}
    (hes : ∀ e ∈ es, Visits I P child e)
    (bare : (make es).declared = []) (visited : ∀ es, (make es).visited = es)
    (shape : ∀ es', List.Forall₂ (fun _ _ => True) es es' →
      (make es).Rewritten (fun _ _ => True) (make es')) (hst : I st) :
    Ends (do return make (← v.inSlots child slot es)) st (Leaves I G P V st (make es)) := by
  refine .bind (inSlots_ends hv hI hes hst) ?_
  rintro es' st' ⟨hI', chain⟩
  refine .pure (leaves_of_chain bare hI' (shape es' chain.forall₂) ?_)
  rw [visited, visited]
  exact chain

/-- A node around a list of named values. -/
theorem fields_leaves {make : List FieldInit → Node} {slot : Nat → Bool → FieldSlot}
    {fs : List FieldInit} (hfs : ∀ f ∈ fs, Visits I P child f.value)
    (bare : (make fs).declared = []) (visited : ∀ fs, (make fs).visited = fs.map (·.value))
    (shape : ∀ fs', List.Forall₂ (FieldInit.Rewritten fun _ _ => True) fs fs' →
      (make fs).Rewritten (fun _ _ => True) (make fs')) (hst : I st) :
    Ends (do return make (← v.fields child slot fs)) st (Leaves I G P V st (make fs)) := by
  refine .bind (fields_ends hv hI hfs hst) ?_
  rintro fs' st' ⟨hI', hr, chain⟩
  refine .pure (leaves_of_chain bare hI' (shape fs' hr) ?_)
  rw [visited, visited]
  exact chain

theorem rows_leaves {type : Ty} {rows : List (List FieldInit)} {useInitializer : Bool}
    (hrows : ∀ fs ∈ rows, ∀ f ∈ fs, Visits I P child f.value) (hst : I st) :
    Ends (do return .makeStruct type (← visitEach (v.row child) 0 rows) useInitializer) st
      (Leaves I G P V st (.makeStruct type rows useInitializer)) := by
  refine .bind (rows_ends hv hI hrows hst) ?_
  rintro rows' st' ⟨hI', hr, chain⟩
  exact .pure (leaves_of_chain rfl hI' (.makeStruct hr) chain)

/-- The arguments of a block are entered first, and its `finally` section stands behind its
statements or before them. -/
theorem block_leaves {info : BlockInfo} {list finalList : List Expr}
    (hc : ∀ e ∈ (Node.block info list finalList).visited, Visits I P child e)
    (hd : ∀ id ∈ info.args, v.Enters I V child id) (hst : I st) :
    Ends (v.walk child (.block info list finalList)) st
      (Leaves I G P V st (.block info list finalList)) := by
  have hlist : ∀ e ∈ list, Visits I P child e := by
    intro e he
    apply hc
    rw [Node.visited]
    split <;> simp [he]
  have hfinal : ∀ e ∈ visitedFinally info finalList, Visits I P child e := by
    intro e he
    apply hc
    rw [Node.visited]
    split <;> simp [he]
  refine .bind (removableVariables_ends hv hI (by decide) hd hst) fun args st₁ h => ?_
  obtain ⟨rfl, hI₁, vars⟩ := h
  dsimp only
  by_cases first : info.finallyBeforeBody = true
  · rw [if_pos first]
    refine .bind (finallySection_ends hv hI hfinal hI₁) ?_
    rintro final' st₂ ⟨hI₂, off, hc₂⟩
    refine .bind (inSlots_ends hv hI hlist hI₂) ?_
    rintro list' st₃ ⟨hI₃, hc₃⟩
    refine .pure ⟨hI₃, .block hc₃.forall₂ hc₂.forall₂ off, st₁, vars, ?_⟩
    simp only [Node.visited, if_pos first]
    exact hc₂.append hc₃
  · rw [if_neg first]
    refine .bind (inSlots_ends hv hI hlist hI₁) ?_
    rintro list' st₂ ⟨hI₂, hc₂⟩
    refine .bind (finallySection_ends hv hI hfinal hI₂) ?_
    rintro final' st₃ ⟨hI₃, off, hc₃⟩
    refine .pure ⟨hI₃, .block hc₂.forall₂ hc₃.forall₂ off, st₁, vars, ?_⟩
    simp only [Node.visited, if_neg first]
    exact hc₂.append hc₃

theorem declare_leaves {vars : List VarId} {inScope : Bool}
    (hd : ∀ id ∈ vars, v.Enters I V child id) (hst : I st) :
    Ends (v.walk child (.declare vars inScope)) st (Leaves I G P V st (.declare vars inScope)) := by
  refine .bind (removableVariables_ends hv hI (by decide) hd hst) fun args st₁ h => ?_
  obtain ⟨rfl, hI₁, vars⟩ := h
  exact .pure ⟨hI₁, .declare, st₁, vars, .nil⟩

/-- A child that may be missing, in a place with a hook, behind other children. -/
theorem behind_ends (make : Option Expr → Node) {slot : Slot}
    (ho : ∀ e ∈ o, Visits I P child e) (hst : I st) :
    Ends (match o with
      | none => pure (make none)
      | some e => do
        v.enterSlot slot e
        return make (← optional child (some e))) st fun n' st' =>
      ∃ o', n' = make o' ∧ I st' ∧ Chain G P st o.toList o'.toList st' ∧
        Option.Rel (fun _ _ => True) o o' := by
  cases o with
  | none => exact .pure ⟨none, rfl, hst, .nil, .none⟩
  | some e =>
    refine (hv.enterSlot slot e).bind_ends fun st₁ hG => ?_
    refine .bind (optional_ends (G := G) ho (hI _ _ hst hG)) ?_
    rintro o' st' ⟨hI', chain, rel⟩
    exact .pure ⟨o', rfl, hI', .idle hG chain, rel⟩

theorem op3_leaves {op : String} {value : Expr} {function : Option FunctionId}
    (hc : ∀ e ∈ [value, left, right], Visits I P child e) (hst : I st) :
    Ends (v.walk child (.op3 op value left right function)) st
      (Leaves I G P V st (.op3 op value left right function)) := by
  refine .bind (required_ends (G := G) (hc value (.head _)) hst) ?_
  rintro value' st₁ ⟨hI₁, hc₁⟩
  refine .bind (requiredIn_ends hv hI (hc left (.tail _ (.head _))) hI₁) ?_
  rintro left' st₂ ⟨hI₂, hc₂⟩
  refine .bind (requiredIn_ends hv hI (hc right (.tail _ (.tail _ (.head _)))) hI₂) ?_
  rintro right' st₃ ⟨hI₃, hc₃⟩
  refine .pure (leaves_of_chain rfl hI₃ (.op3 trivial trivial trivial) ?_)
  exact (hc₁.append hc₂).append hc₃

theorem isType_leaves {type : Ty} (he : Visits I P child e) (hst : I st) :
    Ends (v.walk child (.isType e type)) st (Leaves I G P V st (.isType e type)) := by
  refine .bind (required_ends (G := G) he hst) ?_
  rintro e' st₁ ⟨hI₁, chain⟩
  have rest : Gives G (do v.notice (.isType type); return .isType e' (← v.visitType type))
      (Node.isType e' type) :=
    hv.bind (hv.notice _) (hv.bind (visitType_gives hv type) (hv.pure _))
  refine rest.ends fun st₂ hG => ?_
  exact leaves_of_chain rfl (hI _ _ hI₁ hG) (.isType trivial) (chain.idle_after hG)

/-- The branches of a condition, which the visitor lets in. -/
theorem ifThenElse_leaves {cond ifTrue : Expr} {ifFalse : Option Expr} {isStatic : Bool}
    (hc : ∀ e ∈ cond :: ifTrue :: ifFalse.toList, Visits I P child e) (hst : I st) :
    Ends (v.walk child (.ifThenElse cond ifTrue ifFalse isStatic)) st
      (Leaves I G P V st (.ifThenElse cond ifTrue ifFalse isStatic)) := by
  obtain ⟨hcond, hc⟩ := List.forall_mem_cons.1 hc
  obtain ⟨htrue, hfalse⟩ := List.forall_mem_cons.1 hc
  refine .bind (required_ends (G := G) hcond hst) ?_
  rintro cond' st₁ ⟨hI₁, hc₁⟩
  refine (hv.allows _).bind_ends fun st₂ hG₂ => ?_
  rw [if_pos rfl]
  refine .bind (requiredIn_ends hv hI htrue (hI _ _ hI₁ hG₂)) ?_
  rintro ifTrue' st₃ ⟨hI₃, hc₃⟩
  refine (behind_ends hv hI (.ifThenElse cond' ifTrue' · isStatic)
    (fun e he => hfalse e (Option.mem_toList.2 he)) hI₃).mono ?_
  rintro _ st₄ ⟨ifFalse', rfl, hI₄, hc₄, rel⟩
  refine leaves_of_chain rfl hI₄ (.ifThenElse trivial trivial rel) ?_
  exact (hc₁.append (.idle hG₂ hc₃)).append hc₄

theorem comprehension_leaves {source body : Expr} {filter : Option Expr} {isGenerator : Bool}
    (hc : ∀ e ∈ source :: body :: filter.toList, Visits I P child e) (hst : I st) :
    Ends (v.walk child (.comprehension source body filter isGenerator)) st
      (Leaves I G P V st (.comprehension source body filter isGenerator)) := by
  obtain ⟨hsource, hc⟩ := List.forall_mem_cons.1 hc
  obtain ⟨hbody, hfilter⟩ := List.forall_mem_cons.1 hc
  refine .bind (required_ends (G := G) hsource hst) ?_
  rintro source' st₁ ⟨hI₁, hc₁⟩
  refine .bind (requiredIn_ends hv hI hbody hI₁) ?_
  rintro body' st₂ ⟨hI₂, hc₂⟩
  refine (behind_ends hv hI (.comprehension source' body' · isGenerator)
    (fun e he => hfilter e (Option.mem_toList.2 he)) hI₂).mono ?_
  rintro _ st₃ ⟨filter', rfl, hI₃, hc₃, rel⟩
  refine leaves_of_chain rfl hI₃ (.comprehension trivial trivial rel) ?_
  exact (hc₁.append hc₂).append hc₃

/-- The sources of a loop come before its body. -/
theorem forEach_leaves {names : List String} {vars : List VarId} {sources : List Expr}
    {body : Option Expr} (hc : ∀ e ∈ sources ++ body.toList, Visits I P child e) (hst : I st) :
    Ends (v.walk child (.forEach names vars sources body)) st
      (Leaves I G P V st (.forEach names vars sources body)) := by
  obtain ⟨hsources, hbody⟩ := List.forall_mem_append.1 hc
  refine (iterators_gives hv).bind_ends fun st₁ hG₁ => ?_
  refine .bind (loopSources_ends hv hI hsources (hI _ _ hst hG₁)) ?_
  rintro sources' st₂ ⟨hI₂, hc₂⟩
  refine (hv.notice _).bind_ends fun st₃ hG₃ => ?_
  have before : Chain G P st sources sources' st₃ := (Chain.idle hG₁ hc₂).idle_after hG₃
  cases body with
  | none =>
    refine .pure (leaves_of_chain rfl (hI _ _ hI₂ hG₃) (.forEach hc₂.forall₂ .none) ?_)
    exact before.append .nil
  | some e =>
    refine .bind (requiredIn_ends hv hI (hbody e (.head _)) (hI _ _ hI₂ hG₃)) ?_
    rintro body' st₄ ⟨hI₄, hc₄⟩
    refine .pure (leaves_of_chain rfl hI₄ (.forEach hc₂.forall₂ (.some trivial)) ?_)
    exact before.append hc₄

end Nodes

include hv hI in
/-- The visits of a node's declared variables and children, and the node that they leave. -/
theorem walk_ends {n : Node} (hc : ∀ e ∈ n.visited, Visits I P child e)
    (hd : ∀ id ∈ n.declared, v.Enters I V child id) (hst : I st) :
    Ends (v.walk child n) st (Leaves I G P V st n) := by
  have there {o : Option Expr} (h : ∀ e ∈ o.toList, Visits I P child e) :
      ∀ e ∈ o, Visits I P child e := fun e he => h e (Option.mem_toList.2 he)
  have inFields {fs : List FieldInit} (h : ∀ e ∈ fs.map (·.value), Visits I P child e) :
      ∀ f ∈ fs, Visits I P child f.value := fun f hf => h f.value (List.mem_map_of_mem hf)
  cases n with
  | label | var | breakLoop | continueLoop | literal =>
    exact leaf_leaves rfl (by constructor) rfl hst
  | goto number target =>
    exact optional_leaves (there hc) rfl (fun _ => rfl) (fun _ => .goto) hst
  | ret value moves fromYield =>
    exact optional_leaves (there hc) rfl (fun _ => rfl) (fun _ => .ret) hst
  | convert mode value | yield value moves | makeBlock value isLambda isLocalFunction
  | delete value native | ascend value onStack needsTypeInfo | swizzle mask value indices
  | field access name value field? element? derefsFreely | op1 op value function =>
    exact one_leaves (hc value (.head _)) rfl (fun _ => rfl)
      (fun _ => by constructor; trivial) hst
  | nullCoalescing left right | index safe left right | op2 op left right function
  | assign mode left right function | sequence left right | tryCatch left right
  | within left right | whileLoop left right =>
    exact two_leaves hv hI (hc left (.head _)) (hc right (.tail _ (.head _))) rfl
      (fun _ _ => rfl) (fun _ _ => by constructor <;> trivial) hst
  | op3 op value left right function => exact op3_leaves hv hI hc hst
  | looksLikeCall name kind args | call name args function | stringBuilder args =>
    exact list_leaves hv hI hc rfl (fun _ => rfl) (fun _ h => by constructor; exact h) hst
  | namedCall name args =>
    exact fields_leaves hv hI (inFields hc) rfl (fun _ => rfl) (fun _ => .namedCall) hst
  | address target function type =>
    refine idle_leaves hI (visitTypeOption_gives hv type) (fun st₁ h => ?_) hst
    exact leaf_leaves rfl .address rfl h
  | makeGenerator type args | makeTuple type args isKeyValue =>
    refine idle_leaves hI (visitTypeOption_gives hv type) (fun st₁ h => ?_) hst
    exact list_leaves hv hI hc rfl (fun _ => rfl) (fun _ h => by constructor; exact h) h
  | new type args hasInitializer | makeArray type args =>
    refine idle_leaves hI (visitType_gives hv type) (fun st₁ h => ?_) hst
    exact list_leaves hv hI hc rfl (fun _ => rfl) (fun _ h => by constructor; exact h) h
  | isType value type => exact isType_leaves hv hI (hc value (.head _)) hst
  | typeInfo query value type =>
    refine idle_leaves hI (visitTypeOption_gives hv type) (fun st₁ h => ?_) hst
    exact optional_leaves (there hc) rfl (fun _ => rfl) (fun _ => .typeInfo) h
  | cast value type upcast reinterpret =>
    refine idle_leaves hI (visitType_gives hv type) (fun st₁ h => ?_) hst
    exact one_leaves (hc value (.head _)) rfl (fun _ => rfl) (fun _ => .cast trivial) h
  | block info list finalList => exact block_leaves hv hI hc hd hst
  | declare vars inScope => exact declare_leaves hv hI hd hst
  | ifThenElse cond ifTrue ifFalse isStatic => exact ifThenElse_leaves hv hI hc hst
  | forEach names vars sources body => exact forEach_leaves hv hI hc hst
  | comprehension source body filter isGenerator => exact comprehension_leaves hv hI hc hst
  | makeStruct type rows useInitializer =>
    refine idle_leaves hI (visitType_gives hv type) (fun st₁ h => ?_) hst
    exact rows_leaves hv hI (fun fs hfs f hf => hc f.value
      (List.mem_flatMap.2 ⟨fs, hfs, List.mem_map_of_mem hf⟩)) h
  | makeVariant type fs =>
    refine idle_leaves hI (visitType_gives hv type) (fun st₁ h => ?_) hst
    exact fields_leaves hv hI (inFields hc) rfl (fun _ => rfl) (fun _ => .makeVariant) h

end Pieces

end Visitor

end Frontend
