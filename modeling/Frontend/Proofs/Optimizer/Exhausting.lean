import Mathlib.Data.Set.Insert
import Frontend.Proofs.Optimizer.Firing
import Frontend.Proofs.Optimizer.Links
import Frontend.Proofs.Ownership

/-!
# One visit leaves nothing to rewrite

A rule is applied to a node when what the node declares and its children have been visited. So it is
enough that what the rule puts in the place of a node has nothing to rewrite if the children had
nothing. Variables are shared and may be declared in their own initializers; the visit therefore
carries along a set of variables whose initializers declare only variables of the set.
-/

namespace Frontend

variable {rule : Expr → Option Expr} {T T' : Set VarId} {e e' c : Expr}

namespace Expr

/-- The rule applies nowhere in the tree, and the tree declares only variables in `T`. -/
def Exhausted (rule : Expr → Option Expr) (T : Set VarId) (e : Expr) : Prop :=
  ∀ x, e.Below x → rule x = none ∧ ∀ id ∈ x.node.declared, id ∈ T

namespace Exhausted

theorem mono (h : e.Exhausted rule T) (hT : T ⊆ T') : e.Exhausted rule T' := fun x hx =>
  ⟨(h x hx).1, fun id hid => hT ((h x hx).2 id hid)⟩

theorem below (h : e.Exhausted rule T) (hc : e.Below c) : c.Exhausted rule T := fun x hx =>
  h x (hc.trans hx)

theorem of_visited (hrule : rule e = none) (hd : ∀ id ∈ e.node.declared, id ∈ T)
    (hc : ∀ c ∈ e.node.visited, c.Exhausted rule T) : e.Exhausted rule T := by
  intro x hx
  cases hx with
  | here => exact ⟨hrule, hd⟩
  | child hmem hx => exact hc _ hmem x hx

/-- A block keeps its children exhausted if its statements come from below the old ones. -/
theorem block {info : BlockInfo} {list list' finalList finalList' : List Expr}
    (hn : e.node = .block info list finalList) (hd : ∀ id ∈ e.node.declared, id ∈ T)
    (hc : ∀ c ∈ e.node.visited, c.Exhausted rule T)
    (hl : ∀ c ∈ list', ∃ x ∈ list, x.Below c) (hf : ∀ c ∈ finalList', ∃ x ∈ finalList, x.Below c)
    (hrule : rule { e with node := .block info list' finalList' } = none) :
    Exhausted rule T { e with node := .block info list' finalList' } := by
  refine .of_visited hrule (fun id hid => hd id (by rw [hn]; exact hid)) fun c hmem => ?_
  rcases mem_visited_block.1 hmem with hmem | hmem
  · obtain ⟨x, hx, hbelow⟩ := hl c hmem
    refine (hc x ?_).below hbelow
    rw [hn]
    exact mem_visited_block.2 (.inl hx)
  · obtain ⟨hon, hmem⟩ := mem_visitedFinally.1 hmem
    obtain ⟨x, hx, hbelow⟩ := hf c hmem
    refine (hc x ?_).below hbelow
    rw [hn]
    exact mem_visited_block.2 (.inr (mem_visitedFinally.2 ⟨hon, hx⟩))

end Exhausted

end Expr

/-- What takes the place of a node has nothing to rewrite, if its children had nothing. -/
def Exhausts (rule : Expr → Option Expr) : Prop :=
  ∀ {T : Set VarId} {e e' : Expr}, rule e = some e' → (∀ id ∈ e.node.declared, id ∈ T) →
    (∀ c ∈ e.node.visited, c.Exhausted rule T) → e'.Exhausted rule T

section Rules

theorem Exhausts.cancelReference : Exhausts Expr.cancelReference? := by
  intro T e e' hrule _ hc
  obtain ⟨c, hmem, h⟩ := Expr.cancelReference_cases hrule
  rcases h with rfl | h
  · exact hc _ hmem
  · exact (hc c hmem).below (.child h (.here _))

theorem Exhausts.foldConstant (s : Store) : Exhausts s.foldConstant? := by
  intro T e e' hrule _ _
  obtain ⟨span, type, flags, node⟩ := e'
  have hliteral := (Store.foldConstant_cases hrule).2
  cases node with
  | literal => exact .of_visited rfl nofun nofun
  | _ => cases hliteral

theorem Exhausts.chooseBranch (s : Store) : Exhausts s.chooseBranch? := by
  intro T e e' hrule _ hc
  rcases Store.chooseBranch_cases hrule with hmem | ⟨-, -, rfl⟩
  · exact hc _ hmem
  · exact .of_visited rfl nofun nofun

namespace Expr

theorem dropConstants_cons (keepLast : Bool) (h : (!e.isLiteral) = true) (es : List Expr) :
    dropConstants keepLast (e :: es) = e :: dropConstants keepLast es := by
  cases es with
  | nil => simp [dropConstants, h]
  | cons => simp [dropConstants, h]

theorem dropConstants_idem (keepLast : Bool) (es : List Expr) :
    dropConstants keepLast (dropConstants keepLast es) = dropConstants keepLast es := by
  fun_induction dropConstants keepLast es with
  | case1 => rfl
  | case2 e h => rw [dropConstants, if_pos h]
  | case3 => rfl
  | case4 e es _ h ih => rw [dropConstants_cons keepLast h, ih]
  | case5 _ _ _ _ ih => exact ih

theorem reachable_idem (leaves : Expr → Bool) (skipping : Bool) (es : List Expr) :
    reachable leaves skipping (reachable leaves skipping es) = reachable leaves skipping es := by
  fun_induction reachable leaves skipping es with
  | case1 => rfl
  | case2 skipping e es h ih =>
    rw [Bool.and_eq_true] at h
    rw [h.1]
    exact ih
  | case3 skipping e es h ih => rw [reachable, if_neg h, ih]

section Tidied

variable (leaves : Expr → Bool) (list : List Expr)

theorem all_stay_tidied : ∀ c ∈ tidied leaves list, c.Stays := fun c hc =>
  (flattens_inlineAll list).all_stay c ((reachable_sublist _ _ _).subset hc)

theorem not_isInlineable_tidied : (tidied leaves list).any isInlineable = false :=
  not_any_isInlineable (all_stay_tidied leaves list)

theorem inlineAll_tidied : inlineAll (tidied leaves list) = tidied leaves list :=
  (Flattens.of_all_stay (all_stay_tidied leaves list)).eq_inlineAll.symm

end Tidied

end Expr

theorem Exhausts.cleanBlock : Exhausts Expr.cleanBlock? := by
  intro T e e' hrule hd hc
  obtain ⟨info, list, finalList, hn, rfl, -⟩ := Expr.cleanBlock_cases hrule
  refine .block hn hd hc
    (fun c hmem => ⟨c, (Expr.dropConstants_sublist _ _).subset hmem, .here c⟩)
    (fun c hmem => ⟨c, (Expr.dropConstants_sublist _ _).subset hmem, .here c⟩) ?_
  simp [Expr.cleanBlock?, Expr.dropConstants_idem]

theorem Exhausts.tidyBlock (s : Store) : Exhausts s.tidyBlock? := by
  intro T e e' hrule hd hc
  obtain ⟨info, list, finalList, hn, rfl, -⟩ := Store.tidyBlock_cases hrule
  refine .block hn hd hc (fun c hmem => Expr.below_of_mem_tidied hmem)
    (fun c hmem => Expr.below_of_mem_tidied hmem) ?_
  have again (l : List Expr) : Expr.reachable s.alwaysLeaves false
      (Expr.tidied s.alwaysLeaves l) = Expr.tidied s.alwaysLeaves l := Expr.reachable_idem _ _ _
  simp [Store.tidyBlock?, Expr.not_isInlineable_tidied, Expr.inlineAll_tidied, again]

end Rules

inductive Declaration
  | enumeration (id : EnumId)
  | struct (id : StructId)
  | var (id : VarId)
  | code (id : FunctionId)

def Store.source? (s : Store) (id : FunctionId) : Option Function :=
  (s.function? id).filter fun f => !f.isBuiltin

namespace Declaration

def trees (s : Store) : Declaration → List Expr
  | enumeration id => ((s.enumeration? id).getD default).entries.flatMap fun x => x.2.toList
  | struct id => ((s.struct? id).getD default).fields.flatMap fun f => f.init.toList
  | var _ => []
  | code id => ((s.source? id).bind (·.body)).toList

def vars (s : Store) : Declaration → List VarId
  | enumeration _ | struct _ => []
  | var id => [id]
  | code id => ((s.source? id).map (·.args)).getD []

section Members

variable {s : Store} {e : Expr}

theorem mem_trees_enumeration {id : EnumId} : e ∈ trees s (enumeration id) ↔
    ∃ x, s.enumeration? id = some x ∧ e ∈ x.entries.flatMap fun x => x.2.toList := by
  rw [trees]
  cases s.enumeration? id with
  | none => exact iff_of_false List.not_mem_nil (by simp)
  | some x => simp

theorem mem_trees_struct {id : StructId} : e ∈ trees s (struct id) ↔
    ∃ x, s.struct? id = some x ∧ e ∈ x.fields.flatMap fun f => f.init.toList := by
  rw [trees]
  cases s.struct? id with
  | none => exact iff_of_false List.not_mem_nil (by simp)
  | some x => simp

theorem mem_trees_code {id : FunctionId} : e ∈ trees s (code id) ↔
    ∃ f, s.source? id = some f ∧ f.body = some e := by
  rw [trees, Option.mem_toList, Option.bind_eq_some_iff]

theorem mem_vars_code {id : FunctionId} {v : VarId} : v ∈ vars s (code id) ↔
    ∃ f, s.source? id = some f ∧ v ∈ f.args := by
  rw [vars]
  cases s.source? id with
  | none => exact iff_of_false List.not_mem_nil (by simp)
  | some f => simp

end Members

def ofModule (m : Module) : List Declaration :=
  m.enumerations.values.map enumeration ++ m.structOrder.map struct ++ m.globalOrder.map var ++
    m.functions.values.map code

structure Exhausted (rule : Expr → Option Expr) (s : Store) (T : Set VarId) (d : Declaration) :
    Prop where
  vars : ∀ id ∈ d.vars s, id ∈ T
  trees : ∀ e ∈ d.trees s, e.Exhausted rule T

theorem Exhausted.of_varsOnly {s s' : Store} {d : Declaration} (hs : s.VarsOnly s') (hT : T ⊆ T')
    (h : d.Exhausted rule s T) : d.Exhausted rule s' T' := by
  have vars : d.vars s' = d.vars s := by rw [hs]; cases d <;> rfl
  have trees : d.trees s' = d.trees s := by rw [hs]; cases d <;> rfl
  exact ⟨fun id hid => hT (h.vars id (vars ▸ hid)), fun e he => (h.trees e (trees ▸ he)).mono hT⟩

theorem Exhausted.of_source {s : Store} {id : FunctionId}
    (h : ∀ f, s.source? id = some f →
      (∀ a ∈ f.args, a ∈ T) ∧ ∀ b, f.body = some b → b.Exhausted rule T) :
    Exhausted rule s T (code id) := by
  refine ⟨fun a ha => ?_, fun e he => ?_⟩
  · obtain ⟨f, hf, ha⟩ := mem_vars_code.1 ha
    exact (h f hf).1 a ha
  · obtain ⟨f, hf, he⟩ := mem_trees_code.1 he
    exact (h f hf).2 e he

end Declaration

namespace Store

variable {s s' s₁ s₂ : Store} {d d₀ : Declaration}

def InitsExhausted (rule : Expr → Option Expr) (s : Store) (T : Set VarId) : Prop :=
  ∀ id ∈ T, ∀ i, (s.var id).init = some i → i.Exhausted rule T

theorem InitsExhausted.meets (h : s.InitsExhausted rule T) {x : Expr} (he : e.Exhausted rule T)
    (hx : s.Meets e x) : rule x = none := by
  induction hx with
  | here => exact (he _ (.here _)).1
  | child hc _ ih => exact ih (he.below (.child hc (.here _)))
  | init hd hi _ ih => exact ih (h _ ((he _ (.here _)).2 _ hd) _ hi)

theorem init_attach {id v : VarId} {i j : Expr} (h : ((s.attach id i).var v).init = some j) :
    j = i ∨ (s.var v).init = some j := by
  simp only [attach, modifyVariable, var, Table.get?_modify] at h
  split at h
  · left
    cases hx : s.vars.get? v with
    | none =>
      rw [hx] at h
      cases h
    | some x =>
      rw [hx] at h
      exact (Option.some.inj h).symm
  · exact .inr h

/-- The stores differ in the trees of one declaration at most. -/
structure Around (d₀ : Declaration) (s s' : Store) : Prop where
  callees : s.SameCallees s'
  inits : ∀ id, (s'.var id).init = (s.var id).init
  trees : ∀ d, d ≠ d₀ → d.trees s' = d.trees s
  vars : ∀ d : Declaration, d.vars s' = d.vars s

theorem around_modifyEnumeration (s : Store) (id : EnumId) (f : Enumeration → Enumeration) :
    Around (.enumeration id) s (s.modifyEnumeration id f) where
  callees := .of_functions_eq rfl
  inits _ := rfl
  trees d hd := by
    cases d with
    | enumeration other =>
      have hne : other ≠ id := fun h => hd (by rw [h])
      simp only [Declaration.trees, enumeration?, modifyEnumeration, Table.get?_modify, if_neg hne]
    | _ => rfl
  vars d := by cases d <;> rfl

theorem around_modifyStruct (s : Store) (id : StructId) (f : Struct → Struct) :
    Around (.struct id) s (s.modifyStruct id f) where
  callees := .of_functions_eq rfl
  inits _ := rfl
  trees d hd := by
    cases d with
    | struct other =>
      have hne : other ≠ id := fun h => hd (by rw [h])
      simp only [Declaration.trees, struct?, modifyStruct, Table.get?_modify, if_neg hne]
    | _ => rfl
  vars d := by cases d <;> rfl

theorem around_modifyBody (s : Store) (id : FunctionId) (body : Option Expr) :
    Around (.code id) s (s.modifyFunction id fun f => { f with body }) where
  callees := .modifyBody s id body
  inits _ := rfl
  trees d hd := by
    cases d with
    | code other =>
      have hne : other ≠ id := fun h => hd (by rw [h])
      simp only [Declaration.trees, source?, function?, modifyFunction, Table.get?_modify,
        if_neg hne]
    | _ => rfl
  vars d := by
    cases d with
    | code other =>
      simp only [Declaration.vars, source?, function?, modifyFunction, Table.get?_modify]
      split
      · cases s.functions.get? other with
        | none => rfl
        | some f => cases h : f.isBuiltin <;> simp [Option.filter, h]
      · rfl
    | _ => rfl

/-- More is exhausted than before, with more variables. -/
structure Progress (rule : Expr → Option Expr) (s : Store) (T : Set VarId) (s' : Store)
    (T' : Set VarId) : Prop where
  callees : s.SameCallees s'
  grows : T ⊆ T'
  inits : s'.InitsExhausted rule T'
  declarations : ∀ d : Declaration, d.Exhausted rule s T → d.Exhausted rule s' T'

namespace Progress

theorem refl (h : s.InitsExhausted rule T) : Progress rule s T s T where
  callees := .refl s
  grows _ hid := hid
  inits := h
  declarations _ hd := hd

theorem trans {T₁ : Set VarId} (h : Progress rule s T s₁ T₁) (h' : Progress rule s₁ T₁ s' T') :
    Progress rule s T s' T' where
  callees := h.callees.trans h'.callees
  grows _ hid := h'.grows (h.grows hid)
  inits := h'.inits
  declarations d hd := h'.declarations d (h.declarations d hd)

/-- The trees of one declaration are visited away from it. -/
theorem around (h : Around d₀ s s₁) (hp : Progress rule s₁ T s₂ T') (h' : Around d₀ s₂ s')
    (hd₀ : d₀.Exhausted rule s' T') : Progress rule s T s' T' where
  callees := (h.callees.trans hp.callees).trans h'.callees
  grows := hp.grows
  inits id hid i hi := hp.inits id hid i ((h'.inits id).symm.trans hi)
  declarations d hd := by
    by_cases hne : d = d₀
    · exact hne ▸ hd₀
    · have before : d.Exhausted rule s₁ T :=
        ⟨fun id hid => hd.vars id (h.vars d ▸ hid), fun e he => hd.trees e (h.trees d hne ▸ he)⟩
      have after := hp.declarations d before
      exact ⟨fun id hid => after.vars id (h'.vars d ▸ hid),
        fun e he => after.trees e (h'.trees d hne ▸ he)⟩

end Progress

end Store

section Visits

variable {R : Store → Expr → Option Expr} {s₀ : Store} {st st₁ st' : Visit Bool}
  {ds ds' : List Declaration} {es es' fs fs' : List Expr}

/-- Whatever is exhausted already, the visit exhausts the declarations as well and leaves exhausted
trees. -/
def Exhausting (R : Store → Expr → Option Expr) (s₀ : Store) (ds : List Declaration)
    (es : List Expr) (st st' : Visit Bool) : Prop :=
  s₀.SameCallees st.store → ∀ T, st.store.InitsExhausted (R s₀) T →
    ∃ T', Store.Progress (R s₀) st.store T st'.store T' ∧
      (∀ d ∈ ds, d.Exhausted (R s₀) st'.store T') ∧ ∀ e ∈ es, e.Exhausted (R s₀) T'

namespace Exhausting

theorem nothing (st : Visit Bool) : Exhausting R s₀ [] [] st st := fun _ T hT =>
  ⟨T, .refl hT, List.forall_mem_nil _, List.forall_mem_nil _⟩

theorem append (h : Exhausting R s₀ ds es st st₁) (h' : Exhausting R s₀ ds' fs st₁ st') :
    Exhausting R s₀ (ds ++ ds') (es ++ fs) st st' := by
  intro hs T hT
  obtain ⟨T₁, hp, hds, hes⟩ := h hs T hT
  obtain ⟨T', hp', hds', hfs⟩ := h' (hs.trans hp.callees) T₁ hp.inits
  refine ⟨T', hp.trans hp', fun d hd => ?_, fun e he => ?_⟩
  · rcases List.mem_append.1 hd with hd | hd
    · exact hp'.declarations d (hds d hd)
    · exact hds' d hd
  · rcases List.mem_append.1 he with he | he
    · exact (hes e he).mono hp'.grows
    · exact hfs e he

theorem run {α : Type} {F : α → Visit Bool → Visit Bool → Prop} {f : α → Declaration}
    {as : List α} (hF : ∀ a st st', F a st st' → Exhausting R s₀ [f a] [] st st')
    (h : Run F as st st') : Exhausting R s₀ (as.map f) [] st st' := by
  induction h with
  | nil => exact nothing _
  | cons h _ ih => exact (hF _ _ _ h).append ih

end Exhausting

def ExhaustingTree (R : Store → Expr → Option Expr) (s₀ : Store) (st : Visit Bool) (e e' : Expr)
    (st' : Visit Bool) : Prop :=
  Rewriting (fun _ _ => True) s₀ st e e' st' ∧ Exhausting R s₀ [] [e'] st st'

namespace Exhausting

theorem varVisit {id : VarId} (h : VarVisit (ExhaustingTree R s₀) st id st') :
    Exhausting R s₀ [.var id] [] st st' := by
  intro hs T hT
  have grows : T ⊆ insert id T := Set.subset_insert id T
  cases h with
  | blank hblank =>
    refine ⟨insert id T, ⟨.refl _, grows, ?_, fun d => .of_varsOnly (.refl _) grows⟩,
      List.forall_mem_singleton.2 ⟨fun v hv => ?_, List.forall_mem_nil _⟩, List.forall_mem_nil _⟩
    · rintro v (rfl | hv) j hj
      · rw [hblank] at hj
        cases hj
      · exact (hT v hv j hj).mono grows
    · exact .inl (List.mem_singleton.1 hv)
  | @init i i' st₁ hi hP =>
    -- The initializer is away from its variable while it is visited.
    have away : (st.store.detach id).InitsExhausted (R s₀) (insert id T) := by
      intro v hv j hj
      rw [Store.init_detach] at hj
      split at hj
      · cases hj
      · rename_i hne
        exact (hT v (hv.resolve_left hne) j hj).mono grows
    obtain ⟨T', hp, -, hes⟩ := hP.2 (hs.trans (.of_varsOnly (Store.varsOnly_detach _ id))) _ away
    have frame : st.store.VarsOnly (st₁.store.attach id i') :=
      ((Store.varsOnly_detach _ id).trans hP.1.frame).trans (Store.varsOnly_attach _ id i')
    have hid : id ∈ T' := hp.grows (.inl rfl)
    have more : T ⊆ T' := grows.trans hp.grows
    refine ⟨T', ⟨.of_varsOnly frame, more, ?_, fun d => .of_varsOnly frame more⟩,
      List.forall_mem_singleton.2 ⟨fun v hv =>
        List.mem_singleton.1 hv ▸ hid, List.forall_mem_nil _⟩, List.forall_mem_nil _⟩
    intro v hv j hj
    rcases Store.init_attach hj with rfl | hj
    · exact hes _ (.head _)
    · exact hp.inits v hv j hj

theorem varChain {ids : List VarId} (h : VarChain Eq (VarVisit (ExhaustingTree R s₀)) st ids st') :
    Exhausting R s₀ (ids.map .var) [] st st' := by
  induction h with
  | nil => exact nothing _
  | idle h _ ih => rwa [h]
  | cons h _ ih => exact (varVisit h).append ih

theorem chain (h : Chain Eq (ExhaustingTree R s₀) st es es' st') :
    Exhausting R s₀ [] es' st st' := by
  induction h with
  | nil => exact nothing _
  | idle h _ ih => rwa [h]
  | cons h _ ih => exact h.2.append ih

theorem builds (hR : Diminishes R) (hfinal : ∀ s, Exhausts (R s)) (s₀ : Store) :
    (rewriting R).Builds (ExhaustingTree R s₀) := by
  refine (Rewriting.builds (.trivial hR.weight)).and fun st e => ?_
  refine .pure fun n' st₂ st₃ hvars hcs hr => ?_
  have hvisits := (varChain hvars).append (chain hcs)
  refine (Acting.leave_ends _ st₃).mono ?_
  rintro r st₄ ⟨hstore, e₁, hr₁, hrule⟩ e' he' hs T hT
  obtain rfl : e₁ = e' := Option.some.inj (hr₁.symm.trans he')
  obtain ⟨T', hp, hds, hes⟩ := hvisits hs T hT
  have hdeclared : ∀ id ∈ n'.declared, id ∈ T' := by
    intro id hid
    rw [hr.declared_eq] at hid
    refine (hds (.var id) ?_).vars id (.head _)
    simpa using hid
  have hchildren : ∀ c ∈ n'.visited, c.Exhausted (R s₀) T' := fun c hc => hes c (by simpa using hc)
  rw [hR.callees (hs.trans hp.callees)] at hrule
  refine ⟨T', hstore ▸ hp, List.forall_mem_nil _, List.forall_mem_singleton.2 ?_⟩
  rcases hrule with ⟨hno, rfl, -⟩ | ⟨hrule, -⟩
  · exact .of_visited hno hdeclared hchildren
  · exact hfinal s₀ hrule hdeclared hchildren

/-- Trees are visited away from their declaration and put back. -/
theorem away {d₀ : Declaration} {s₁ s₂ : Store} (hs : s₀.SameCallees st.store)
    (hT : st.store.InitsExhausted (R s₀) T) (hclear : Store.Around d₀ st.store s₁)
    (h : Exhausting R s₀ [] es (st.inStore s₁) st₁) (hput : Store.Around d₀ st₁.store s₂)
    (hvars : ∀ v ∈ d₀.vars s₂, v ∈ T) (htrees : d₀.trees s₂ ⊆ es) :
    ∃ T', Store.Progress (R s₀) st.store T s₂ T' ∧ d₀.Exhausted (R s₀) s₂ T' := by
  have before : s₁.InitsExhausted (R s₀) T := fun v hv i hi =>
    hT v hv i ((hclear.inits v).symm.trans hi)
  obtain ⟨T', hp, -, hes⟩ := h (hs.trans hclear.callees) T before
  have hall : d₀.Exhausted (R s₀) s₂ T' :=
    ⟨fun v hv => hp.grows (hvars v hv), fun e he => hes e (htrees he)⟩
  exact ⟨T', hp.around hclear hput hall, hall⟩

theorem enumVisit {id : EnumId} (h : EnumVisit (ExhaustingTree R s₀) id st st') :
    Exhausting R s₀ [.enumeration id] [] st st' := by
  intro hs T hT
  cases h with
  | @mk _ entries' st₁ hentries hshape hP =>
    have hput := Store.around_modifyEnumeration st₁.store id fun e => { e with entries := entries' }
    obtain ⟨T', hp, hall⟩ := away hs hT (Store.around_modifyEnumeration _ id _) (chain hP) hput
      (List.forall_mem_nil _) fun e he => by
        obtain ⟨x, hx, he⟩ := Declaration.mem_trees_enumeration.1 he
        obtain ⟨y, -, rfl⟩ := Option.map_eq_some_iff.1 ((Table.get?_modify_self ..).symm.trans hx)
        exact he
    exact ⟨T', hp, List.forall_mem_singleton.2 hall, List.forall_mem_nil _⟩

theorem structVisit {id : StructId} (h : StructVisit (ExhaustingTree R s₀) id st st') :
    Exhausting R s₀ [.struct id] [] st st' := by
  intro hs T hT
  cases h with
  | @mk _ fields' st₁ hfields hshape hP =>
    have hput := Store.around_modifyStruct st₁.store id fun x => { x with fields := fields' }
    obtain ⟨T', hp, hall⟩ := away hs hT (Store.around_modifyStruct _ id _) (chain hP) hput
      (List.forall_mem_nil _) fun e he => by
        obtain ⟨x, hx, he⟩ := Declaration.mem_trees_struct.1 he
        obtain ⟨y, -, rfl⟩ := Option.map_eq_some_iff.1 ((Table.get?_modify_self ..).symm.trans hx)
        exact he
    exact ⟨T', hp, List.forall_mem_singleton.2 hall, List.forall_mem_nil _⟩

theorem functionVisit {id : FunctionId} (h : FunctionVisit (ExhaustingTree R s₀) id st st') :
    Exhausting R s₀ [.code id] [] st st' := by
  intro hs T hT
  have frame {st₁ : Visit Bool} {ids : List VarId}
      (h : VarChain Eq (VarVisit (ExhaustingTree R s₀)) st ids st₁) :
      st.store.VarsOnly st₁.store :=
    h.keeps (L := fun st st' => st.store.VarsOnly st'.store) (fun _ => .refl _) .trans
      (VarVisit.varsOnly fun h => h.1.frame)
  cases h with
  | @bare f _ hf hbody hvars =>
    obtain ⟨T', hp, hds, -⟩ := varChain hvars hs T hT
    refine ⟨T', hp, List.forall_mem_singleton.2 (.of_source fun x hx => ?_), List.forall_mem_nil _⟩
    have hx : st'.store.function? id = some x := (Option.filter_eq_some_iff.1 hx).1
    rw [(frame hvars).function?] at hx
    obtain rfl : f = x := by rw [hf, hx]; rfl
    refine ⟨fun a ha => (hds (.var a) (List.mem_map_of_mem ha)).vars a (.head _), fun b hb => ?_⟩
    rw [hbody] at hb
    cases hb
  | @body f b b' st₁ st₂ hf hbody hvars hP =>
    obtain ⟨T₁, hp₁, hds, -⟩ := varChain hvars hs T hT
    have put {x : Function} (hx : (st₂.store.modifyFunction id fun f =>
        { f with body := some b' }).source? id = some x) : x = { f with body := some b' } := by
      have hf₂ : st₂.store.functions.get? id = some { f with body := none } := by
        have := hP.1.frame.function? id
        simp only [Visit.store_inStore, Store.function?, Store.modifyFunction,
          Table.get?_modify_self] at this
        have hf₁ : st₁.store.functions.get? id = some f := ((frame hvars).function? id).trans hf
        rw [this, hf₁]
        rfl
      have hx := (Option.filter_eq_some_iff.1 hx).1
      simp only [Store.function?, Store.modifyFunction, Table.get?_modify_self, hf₂] at hx
      exact (Option.some.inj hx).symm
    obtain ⟨T', hp, hall⟩ := away (hs.trans hp₁.callees) hp₁.inits (Store.around_modifyBody _ id _)
      hP.2 (Store.around_modifyBody _ id _)
      (fun v hv => by
        obtain ⟨x, hx, hv⟩ := Declaration.mem_vars_code.1 hv
        obtain rfl := put hx
        exact (hds (.var v) (List.mem_map_of_mem hv)).vars v (.head _))
      fun e he => by
        obtain ⟨x, hx, he⟩ := Declaration.mem_trees_code.1 he
        obtain rfl := put hx
        exact List.mem_singleton.2 (Option.some.inj he).symm
    exact ⟨T', hp₁.trans hp, List.forall_mem_singleton.2 hall, List.forall_mem_nil _⟩

theorem codeVisit {id : FunctionId} (h : CodeVisit (ExhaustingTree R s₀) id st st') :
    Exhausting R s₀ [.code id] [] st st' := by
  unfold CodeVisit at h
  split at h
  · rename_i native
    subst h
    refine fun _ T hT =>
      ⟨T, .refl hT, List.forall_mem_singleton.2 (.of_source fun f hf => ?_), List.forall_mem_nil _⟩
    obtain ⟨hf, hnot⟩ := Option.filter_eq_some_iff.1 hf
    simp only [Visitor.isNative, hf, Option.map_some, Option.getD_some] at native
    rw [native] at hnot
    cases hnot
  · exact functionVisit h

/-- Everything that a module declares. -/
theorem moduleVisit {m : ModuleId} (h : ModuleVisit (ExhaustingTree R s₀) m false st st') :
    Exhausting R s₀ (Declaration.ofModule (st.store.module m)) [] st st' := by
  obtain ⟨st₁, st₂, st₃, st₄, h₁, h₂, h₃, h₄, h₅⟩ := h
  cases h₄
  have enums := run (f := .enumeration) (fun _ _ _ h => enumVisit h) h₁
  have structs := run (f := .struct) (fun _ _ _ h => structVisit h) h₂
  have globals := run (f := .var) (fun _ _ _ h => varVisit h) h₃
  have functions := run (f := .code) (fun _ _ _ h => codeVisit h) h₅
  exact ((enums.append structs).append globals).append functions

end Exhausting

end Visits

section Idle

variable {R : Store → Expr → Option Expr} {s₀ s t : Store} {m : ModuleId}

namespace Declaration

theorem source?_of_partOf (h : t.PartOf s) {id : FunctionId} {f : Function}
    (hf : t.source? id = some f) : s.source? id = some f := by
  obtain ⟨hf, hsource⟩ := Option.filter_eq_some_iff.1 hf
  exact Option.filter_eq_some_iff.2 ⟨h.functions id f hf, hsource⟩

theorem trees_subset (h : t.PartOf s) (d : Declaration) : d.trees t ⊆ d.trees s := by
  intro e he
  cases d with
  | enumeration id =>
    obtain ⟨x, hx, he⟩ := mem_trees_enumeration.1 he
    exact mem_trees_enumeration.2 ⟨x, h.enumerations id x hx, he⟩
  | struct id =>
    obtain ⟨x, hx, he⟩ := mem_trees_struct.1 he
    exact mem_trees_struct.2 ⟨x, h.structs id x hx, he⟩
  | var => cases he
  | code id =>
    obtain ⟨f, hf, he⟩ := mem_trees_code.1 he
    exact mem_trees_code.2 ⟨f, source?_of_partOf h hf, he⟩

theorem vars_subset (h : t.PartOf s) (d : Declaration) : d.vars t ⊆ d.vars s := by
  intro v hv
  cases d with
  | enumeration | struct => cases hv
  | var => exact hv
  | code id =>
    obtain ⟨f, hf, hv⟩ := mem_vars_code.1 hv
    exact mem_vars_code.2 ⟨f, source?_of_partOf h hf, hv⟩

theorem Exhausted.of_partOf {d : Declaration} (hpart : t.PartOf s)
    (h : d.Exhausted rule s T) : d.Exhausted rule t T :=
  ⟨fun v hv => h.vars v (vars_subset hpart d hv), fun e he => h.trees e (trees_subset hpart d he)⟩

end Declaration

theorem Store.InitsExhausted.of_partOf (hpart : t.PartOf s) (h : s.InitsExhausted rule T) :
    t.InitsExhausted rule T :=
  fun v hv i hi => h v hv i (var_of_partOf hpart hi)

/-- Where everything is exhausted that a visit of the module enters, the rule applies nowhere. -/
theorem Store.not_firesInModule (hR : Diminishes R) (hs : s₀.SameCallees t)
    (hT : t.InitsExhausted (R s₀) T)
    (hds : ∀ d ∈ Declaration.ofModule (t.module m), d.Exhausted (R s₀) t T) :
    ¬ t.FiresInModule R m false := by
  have quiet {u : Store} (hu : t.SameCallees u) (hv : u.vars = t.vars) {e : Expr}
      (he : e.Exhausted (R s₀) T) : ¬ u.FiresIn R e := by
    rintro ⟨x, hx, hfires | hfires⟩
    · unfold Fires at hfires
      rw [hR.callees (hs.trans hu), hT.meets he (.of_vars_eq hv hx)] at hfires
      cases hfires
    · exact hfires
  have quietVar {id : VarId} (hid : id ∈ T) : ¬ t.FiresInVar R id := by
    rintro ⟨i, hi, hfires⟩
    exact quiet (.refl t) rfl (hT id hid i hi) hfires
  rintro (⟨id, hid, h⟩ | ⟨id, hid, h⟩ | ⟨id, hid, h⟩ | ⟨_, hid, _⟩ | ⟨id, hid, h⟩)
  · obtain ⟨e, he, hfires⟩ := (collectedInEnum_iff rfl).1 h
    have hdecl := hds (.enumeration id) (by simp [Declaration.ofModule, hid])
    refine quiet ?_ ?_ (hdecl.trees e he) hfires
    · exact .of_functions_eq rfl
    · rfl
  · obtain ⟨e, he, hfires⟩ := (collectedInStruct_iff rfl).1 h
    have hdecl := hds (.struct id) (by simp [Declaration.ofModule, hid])
    refine quiet ?_ ?_ (hdecl.trees e he) hfires
    · exact .of_functions_eq rfl
    · rfl
  · exact quietVar ((hds (.var id) (by simp [Declaration.ofModule, hid])).vars id (.head _)) h
  · cases hid
  · obtain ⟨native, f, hf, h⟩ := h
    have hcode := hds (.code id) (by simp [Declaration.ofModule, hid])
    have hsource : t.source? id = some f := by
      simp only [Visitor.isNative, hf, Option.map_some, Option.getD_some] at native
      simp [Store.source?, hf, Option.filter, native]
    rcases h with ⟨a, ha, h⟩ | ⟨b, hb, h⟩
    · exact quietVar (hcode.vars a (Declaration.mem_vars_code.2 ⟨f, hsource, ha⟩)) h
    · have hmem := Declaration.mem_trees_code.2 ⟨f, hsource, hb⟩
      exact quiet (.refl t) rfl (hcode.trees b hmem) h

/-- A pass rewrites trees, and its rule applies nowhere in what stays of the result, as long as
functions are called as before. -/
theorem Program.rewrite_exhausts {S : Expr → Expr → Prop} {p : Program} (hR : Diminishes R)
    (hfinal : ∀ s, Exhausts (R s)) (hS : SoundRule R p.store S) :
    Ends (rewrite R) p fun _ p' => ∃ s, p' = (p.inStore s).collect ∧ p.store.Rewritten S s ∧
      ∀ t : Store, t.PartOf s → s.SameCallees t → ¬ t.FiresInModule R p.this false := by
  have kept := Visitor.visitModule_ends (Rewriting.builds hS) p.this false ⟨p.store, false⟩
  have acts := Visitor.visitModule_ends (Exhausting.builds hR hfinal p.store) p.this false
    ⟨p.store, false⟩
  refine (walk_ends (Q := fun st =>
    ModuleVisit (Rewriting S p.store) p.this false ⟨p.store, false⟩ st ∧
      ModuleVisit (ExhaustingTree R p.store) p.this false ⟨p.store, false⟩ st) (kept.and acts)).mono
        ?_
  rintro _ p' ⟨st, ⟨hkept, hacts⟩, -, hp'⟩
  have hrewritten := Rewriting.moduleVisit hS hkept (.refl _)
  refine ⟨st.store, hp', hrewritten, fun t hpart hsame => ?_⟩
  have start : p.store.InitsExhausted (R p.store) ∅ := nofun
  obtain ⟨T, hprogress, hdeclarations, -⟩ := Exhausting.moduleVisit hacts (.refl _) ∅ start
  refine Store.not_firesInModule hR (hprogress.callees.trans hsame)
    (hprogress.inits.of_partOf hpart) fun d hd => ?_
  refine (hdeclarations d ?_).of_partOf hpart
  cases hm : t.modules.get? p.this with
  | none =>
    rw [Store.module, Store.module?, hm] at hd
    cases hd
  | some x =>
    have same : t.module p.this = p.store.module p.this := by
      have hx := hpart.modules p.this x hm
      rw [hrewritten.modules] at hx
      rw [Store.module, Store.module?, Store.module, Store.module?, hm, hx]
    rw [← same]
    exact hd

end Idle

end Frontend
