import Frontend.Optimizer.Passes
import Frontend.Proofs.Traversal.Module

/-!
# What a pass that rewrites trees does

`Store.Rewritten R` holds between stores that agree in everything but the trees of declarations,
each tree being related to the one in its place by `R`. A rule that relates every node to what takes
its place relates every tree of the module, and the declarations stay as they are.
-/

namespace Frontend

section Declarations

variable (R : Expr → Expr → Prop)

def Variable.Rewritten (x x' : Variable) : Prop :=
  ∃ i, x' = { x with init := i } ∧ Option.Rel R x.init i

def Function.Rewritten (f f' : Function) : Prop :=
  ∃ b, f' = { f with body := b } ∧ Option.Rel R f.body b

def Field.Rewritten (f f' : Field) : Prop :=
  ∃ i, f' = { f with init := i } ∧ Option.Rel R f.init i

def Struct.Rewritten (x x' : Struct) : Prop :=
  ∃ fields, x' = { x with fields } ∧ List.Forall₂ (Field.Rewritten R) x.fields fields

def EntryRewritten (x x' : String × Option Expr) : Prop := x'.1 = x.1 ∧ Option.Rel R x.2 x'.2

def Enumeration.Rewritten (e e' : Enumeration) : Prop :=
  ∃ entries, e' = { e with entries } ∧ List.Forall₂ (EntryRewritten R) e.entries entries

/-- The trees of the declarations are related, and all else is the same. -/
structure Store.Rewritten (s s' : Store) : Prop where
  functions : s.functions.Agree (Function.Rewritten R) s'.functions
  structs : s.structs.Agree (Struct.Rewritten R) s'.structs
  enumerations : s.enumerations.Agree (Enumeration.Rewritten R) s'.enumerations
  vars : s.vars.Agree (Variable.Rewritten R) s'.vars
  annots : s'.annots = s.annots
  modules : s'.modules = s.modules
  rewriters : s'.rewriters = s.rewriters

end Declarations

variable {R : Expr → Expr → Prop}

section Order

variable (hr : ∀ e, R e e) (ht : ∀ a b c, R a b → R b c → R a c)

include hr in
theorem Variable.Rewritten.refl (x : Variable) : x.Rewritten R x :=
  ⟨x.init, rfl, Table.rel_refl hr _⟩

include ht in
theorem Variable.Rewritten.trans {x y z : Variable} (h : x.Rewritten R y) (h' : y.Rewritten R z) :
    x.Rewritten R z := by
  obtain ⟨i, rfl, hi⟩ := h
  obtain ⟨j, rfl, hj⟩ := h'
  exact ⟨j, rfl, Table.rel_trans ht hi hj⟩

include hr in
theorem Function.Rewritten.refl (f : Function) : f.Rewritten R f :=
  ⟨f.body, rfl, Table.rel_refl hr _⟩

include ht in
theorem Function.Rewritten.trans {f g h : Function} (hf : f.Rewritten R g)
    (hg : g.Rewritten R h) : f.Rewritten R h := by
  obtain ⟨b, rfl, hb⟩ := hf
  obtain ⟨c, rfl, hc⟩ := hg
  exact ⟨c, rfl, Table.rel_trans ht hb hc⟩

theorem forall₂_trans {α : Type} {S : α → α → Prop} (hS : ∀ {a b c}, S a b → S b c → S a c)
    {as bs cs : List α} (h : List.Forall₂ S as bs) (h' : List.Forall₂ S bs cs) :
    List.Forall₂ S as cs := by
  induction h generalizing cs with
  | nil => exact h'
  | cons h _ ih =>
    cases h' with
    | cons h' hs' => exact .cons (hS h h') (ih hs')

theorem forall₂_refl {α : Type} {S : α → α → Prop} (hS : ∀ a, S a a) (as : List α) :
    List.Forall₂ S as as := by
  induction as with
  | nil => exact .nil
  | cons a as ih => exact .cons (hS a) ih

include hr in
theorem Struct.Rewritten.refl (x : Struct) : x.Rewritten R x :=
  ⟨x.fields, rfl, forall₂_refl (fun f => ⟨f.init, rfl, Table.rel_refl hr _⟩) _⟩

include ht in
theorem Struct.Rewritten.trans {x y z : Struct} (h : x.Rewritten R y) (h' : y.Rewritten R z) :
    x.Rewritten R z := by
  obtain ⟨fs, rfl, hfs⟩ := h
  obtain ⟨gs, rfl, hgs⟩ := h'
  refine ⟨gs, rfl, forall₂_trans (fun hf hg => ?_) hfs hgs⟩
  obtain ⟨i, rfl, hi⟩ := hf
  obtain ⟨j, rfl, hj⟩ := hg
  exact ⟨j, rfl, Table.rel_trans ht hi hj⟩

include hr in
theorem Enumeration.Rewritten.refl (e : Enumeration) : e.Rewritten R e :=
  ⟨e.entries, rfl, forall₂_refl (fun _ => ⟨rfl, Table.rel_refl hr _⟩) _⟩

include ht in
theorem Enumeration.Rewritten.trans {x y z : Enumeration} (h : x.Rewritten R y)
    (h' : y.Rewritten R z) : x.Rewritten R z := by
  obtain ⟨as, rfl, has⟩ := h
  obtain ⟨bs, rfl, hbs⟩ := h'
  refine ⟨bs, rfl, forall₂_trans (fun ha hb => ⟨hb.1.trans ha.1, ?_⟩) has hbs⟩
  exact Table.rel_trans ht ha.2 hb.2

namespace Store.Rewritten

include hr in
theorem refl (s : Store) : s.Rewritten R s where
  functions := .refl (Function.Rewritten.refl hr) _
  structs := .refl (Struct.Rewritten.refl hr) _
  enumerations := .refl (Enumeration.Rewritten.refl hr) _
  vars := .refl (Variable.Rewritten.refl hr) _
  annots := rfl
  modules := rfl
  rewriters := rfl

include ht in
theorem trans {s s₁ s₂ : Store} (h : s.Rewritten R s₁) (h' : s₁.Rewritten R s₂) :
    s.Rewritten R s₂ where
  functions := h.functions.trans (fun _ _ _ => Function.Rewritten.trans ht) h'.functions
  structs := h.structs.trans (fun _ _ _ => Struct.Rewritten.trans ht) h'.structs
  enumerations := h.enumerations.trans (fun _ _ _ => Enumeration.Rewritten.trans ht)
    h'.enumerations
  vars := h.vars.trans (fun _ _ _ => Variable.Rewritten.trans ht) h'.vars
  annots := h'.annots.trans h.annots
  modules := h'.modules.trans h.modules
  rewriters := h'.rewriters.trans h.rewriters

end Store.Rewritten

end Order

def Store.SameCallees (s s' : Store) : Prop :=
  ∀ id, (s'.function? id).map (fun f => (f.name, f.isBuiltin)) =
    (s.function? id).map fun f => (f.name, f.isBuiltin)

namespace Store.SameCallees

variable {s s₁ s₂ : Store}

theorem refl (s : Store) : s.SameCallees s := fun _ => rfl

theorem trans (h : s.SameCallees s₁) (h' : s₁.SameCallees s₂) : s.SameCallees s₂ :=
  fun id => (h' id).trans (h id)

theorem of_varsOnly (h : s.VarsOnly s₁) : s.SameCallees s₁ := fun id => by
  rw [h.function? id]

theorem of_functions_eq (h : s₁.functions = s.functions) : s.SameCallees s₁ := fun id => by
  simp only [function?, h]

theorem modifyBody (s : Store) (id : FunctionId) (body : Option Expr) :
    s.SameCallees (s.modifyFunction id fun f => { f with body }) := by
  intro other
  simp only [function?, modifyFunction, Table.get?_modify]
  split
  · cases s.functions.get? other <;> rfl
  · rfl

theorem of_rewritten (h : s.Rewritten R s₁) : s.SameCallees s₁ := by
  refine h.functions.map_get? ?_
  rintro f _ ⟨b, rfl, _⟩
  rfl

theorem isBuiltinPanic (h : s.SameCallees s₁) (function : Option FunctionId) :
    s₁.isBuiltinPanic function = s.isBuiltinPanic function := by
  cases function with
  | none => rfl
  | some id =>
    have callee := h id
    simp only [Store.isBuiltinPanic, Option.bind_some]
    generalize s₁.function? id = f₁, s.function? id = f at callee
    cases f with
    | none =>
      cases f₁ with
      | none => rfl
      | some f₁ => cases callee
    | some f =>
      cases f₁ with
      | none => cases callee
      | some f₁ =>
        simp only [Option.map_some, Option.some.injEq, Prod.mk.injEq] at callee
        simp only [callee.1, callee.2]

theorem isBuiltinOperator (h : s.SameCallees s₁) (function : Option FunctionId) :
    s₁.isBuiltinOperator function = s.isBuiltinOperator function := by
  cases function with
  | none => rfl
  | some id =>
    have callee := congrArg (Option.map Prod.snd) (h id)
    simp only [Option.map_map] at callee
    exact congrArg (Option.getD · false) callee

mutual

theorem alwaysLeaves (h : s.SameCallees s₁) : ∀ e, s₁.alwaysLeaves e = s.alwaysLeaves e
  | ⟨_, _, _, node⟩ => nodeLeaves h node

theorem nodeLeaves (h : s.SameCallees s₁) (n : Node) : s₁.nodeLeaves n = s.nodeLeaves n := by
  cases n with
  | call name args function => exact h.isBuiltinPanic function
  | block info list finalList => rw [Store.nodeLeaves, Store.nodeLeaves, anyLeaves h list]
  | ifThenElse cond ifTrue ifFalse isStatic =>
    cases ifFalse with
    | none => rfl
    | some ifFalse =>
      rw [Store.nodeLeaves, Store.nodeLeaves, alwaysLeaves h ifTrue, alwaysLeaves h ifFalse]
  | _ => rfl

theorem anyLeaves (h : s.SameCallees s₁) : ∀ es, s₁.anyLeaves es = s.anyLeaves es
  | [] => rfl
  | e :: es => by rw [Store.anyLeaves, Store.anyLeaves, alwaysLeaves h e, anyLeaves h es]

end

theorem foldConstant? (h : s.SameCallees s₁) : s₁.foldConstant? = s.foldConstant? := by
  funext e
  simp only [Store.foldConstant?, h.isBuiltinOperator]

theorem chooseBranch? (h : s.SameCallees s₁) : s₁.chooseBranch? = s.chooseBranch? := by
  funext e
  simp only [Store.chooseBranch?, h.isBuiltinOperator]

theorem tidyBlock? (h : s.SameCallees s₁) : s₁.tidyBlock? = s.tidyBlock? := by
  funext e
  have leaves : s₁.alwaysLeaves = s.alwaysLeaves := funext h.alwaysLeaves
  simp only [Store.tidyBlock?, leaves]

end Store.SameCallees

/-- A rule that makes no node heavier and relates each node by `R` to what takes its place, as long
as functions are called as in `s₀`. -/
structure SoundRule (rule : Store → Expr → Option Expr) (s₀ : Store) (R : Expr → Expr → Prop) :
    Prop where
  refl : ∀ e, R e e
  trans : ∀ a b c, R a b → R b c → R a c
  congr : ∀ {e : Expr} {n : Node}, e.node.Rewritten R n → R e { e with node := n }
  weight : ∀ {s e e'}, rule s e = some e' → e'.weight ≤ e.weight
  sound : ∀ {s e e'}, s₀.SameCallees s → rule s e = some e' → R e e'

structure Rewriting (R : Expr → Expr → Prop) (s₀ : Store) (st : Visit Bool) (e e' : Expr)
    (st' : Visit Bool) : Prop where
  weight : e'.weight ≤ e.weight
  initWeight : st'.store.initWeight ≤ st.store.initWeight
  frame : st.store.VarsOnly st'.store
  tree : s₀.SameCallees st.store → R e e'
  store : s₀.SameCallees st.store → st.store.Rewritten R st'.store

theorem entries_of_trees {as bs : List (String × Option Expr)}
    (h : List.Forall₂ (fun x x' : String × Option Expr =>
      x'.1 = x.1 ∧ Option.Rel (fun _ _ => True) x.2 x'.2) as bs)
    (ht : List.Forall₂ R (as.flatMap fun x => x.2.toList) (bs.flatMap fun x => x.2.toList)) :
    List.Forall₂ (EntryRewritten R) as bs := by
  induction h with
  | nil => exact .nil
  | cons h _ ih =>
    rw [List.flatMap_cons, List.flatMap_cons] at ht
    obtain ⟨ha, hs⟩ := forall₂_of_append (forall₂_toList h.2).length_eq ht
    exact .cons ⟨h.1, rel_of_toList h.2 ha⟩ (ih hs)

theorem fields_of_trees {as bs : List Field}
    (h : List.Forall₂ (fun f f' : Field =>
      ∃ i, f' = { f with init := i } ∧ Option.Rel (fun _ _ => True) f.init i) as bs)
    (ht : List.Forall₂ R (as.flatMap fun f => f.init.toList)
      (bs.flatMap fun f => f.init.toList)) :
    List.Forall₂ (Field.Rewritten R) as bs := by
  induction h with
  | nil => exact .nil
  | cons h _ ih =>
    obtain ⟨i, rfl, hi⟩ := h
    rw [List.flatMap_cons, List.flatMap_cons] at ht
    obtain ⟨ha, hs⟩ := forall₂_of_append (forall₂_toList hi).length_eq ht
    exact .cons ⟨i, rfl, rel_of_toList hi ha⟩ (ih hs)

namespace Rewriting

variable {s₀ : Store} {st st₁ st' : Visit Bool} {id : VarId} {ids : List VarId} {es es' : List Expr}
  {rule : Store → Expr → Option Expr}

/-- The initializer of a variable is rewritten. -/
theorem varVisit (hR : SoundRule rule s₀ R) (h : VarVisit (Rewriting R s₀) st id st')
    (hs : s₀.SameCallees st.store) : st.store.Rewritten R st'.store := by
  cases h with
  | blank => exact .refl hR.refl _
  | @init i i' st' hi hP =>
    have hd : s₀.SameCallees (st.store.detach id) :=
      hs.trans (.of_varsOnly (Store.varsOnly_detach _ id))
    obtain ⟨x, hx, hxi⟩ := Store.get?_of_init hi
    have h := hP.store hd
    refine { h with vars := h.vars.around ?_ }
    rintro a b ha ⟨j, hb, _⟩
    rw [hx] at ha
    cases ha
    refine ⟨some i', ?_, ?_⟩
    · rw [hb]
    · rw [hxi]
      exact .some (hP.tree hd)

theorem varChain (hR : SoundRule rule s₀ R) (h : VarChain Eq (VarVisit (Rewriting R s₀)) st ids st')
    (hs : s₀.SameCallees st.store) : st.store.Rewritten R st'.store := by
  induction h with
  | nil => exact .refl hR.refl _
  | idle h _ ih => exact h ▸ ih (h ▸ hs)
  | cons h _ ih =>
    have h₁ := varVisit hR h hs
    exact h₁.trans hR.trans (ih (hs.trans (.of_rewritten h₁)))

theorem chain (hR : SoundRule rule s₀ R) (h : Chain Eq (Rewriting R s₀) st es es' st')
    (hs : s₀.SameCallees st.store) :
    List.Forall₂ R es es' ∧ st.store.Rewritten R st'.store := by
  induction h with
  | nil => exact ⟨.nil, .refl hR.refl _⟩
  | idle h _ ih => exact h ▸ ih (h ▸ hs)
  | cons h _ ih =>
    have h₁ := h.store hs
    obtain ⟨hes, h₂⟩ := ih (hs.trans (.of_rewritten h₁))
    exact ⟨.cons (h.tree hs) hes, h₁.trans hR.trans h₂⟩

theorem weight_of_chain (h : Chain Eq (Rewriting R s₀) st es es' st') :
    List.Forall₂ (fun e e' => e'.weight ≤ e.weight) es es' := by
  induction h with
  | nil => exact .nil
  | idle _ _ ih => exact ih
  | cons h _ ih => exact .cons h.weight ih

theorem initWeight_of_varChain (h : VarChain Eq (VarVisit (Rewriting R s₀)) st ids st') :
    st'.store.initWeight ≤ st.store.initWeight :=
  h.keeps (L := fun st st' => st'.store.initWeight ≤ st.store.initWeight)
    (fun _ => Nat.le_refl _) (fun h h' => Nat.le_trans h' h)
    (VarVisit.initWeight_le fun hP => ⟨hP.weight, hP.initWeight⟩)

theorem initWeight_of_chain (h : Chain Eq (Rewriting R s₀) st es es' st') :
    st'.store.initWeight ≤ st.store.initWeight :=
  h.keeps (L := fun st st' => st'.store.initWeight ≤ st.store.initWeight)
    (fun _ => Nat.le_refl _) (fun h h' => Nat.le_trans h' h) Rewriting.initWeight

theorem frame_of_visits (hvars : VarChain Eq (VarVisit (Rewriting R s₀)) st ids st₁)
    (hcs : Chain Eq (Rewriting R s₀) st₁ es es' st') : st.store.VarsOnly st'.store := by
  have h₁ : st.store.VarsOnly st₁.store :=
    hvars.keeps (L := fun st st' => st.store.VarsOnly st'.store) (fun _ => .refl _) .trans
      (VarVisit.varsOnly Rewriting.frame)
  have h₂ : st₁.store.VarsOnly st'.store :=
    hcs.keeps (L := fun st st' => st.store.VarsOnly st'.store) (fun _ => .refl _) .trans
      Rewriting.frame
  exact h₁.trans h₂

/-- The rule is applied to a node whose children have been rewritten. -/
theorem leave_ends (hR : SoundRule rule s₀ R) (e : Expr) (st : Visit Bool) :
    Ends ((rewriting rule).leave e) st fun r st' => st'.store = st.store ∧
      ∃ e', r.apply e = some e' ∧ e'.weight ≤ e.weight ∧ (s₀.SameCallees st.store → R e e') := by
  refine .bind_run (Visitor.store_run st) ?_
  cases hrule : rule st.store e with
  | none => exact .pure ⟨rfl, e, rfl, Nat.le_refl _, fun _ => hR.refl e⟩
  | some e' =>
    exact ⟨_, _, rfl, rfl, e', rfl, hR.weight hrule, fun hs => hR.sound hs hrule⟩

theorem builds (hR : SoundRule rule s₀ R) : (rewriting rule).Builds (Rewriting R s₀) where
  calm := Visitor.calm_of_nodes _ _ 0
  frame := Rewriting.frame
  weight hP := ⟨hP.weight, hP.initWeight⟩
  node st e := by
    refine .pure ⟨rfl, rfl, fun n' st₁ st₂ hvars hcs hr => ?_⟩
    have hframe := frame_of_visits hvars hcs
    have hlight : Expr.weight { e with node := n' } ≤ e.weight :=
      Expr.weight_le_of_rewritten (hr.of_visited (weight_of_chain hcs))
    refine (leave_ends hR _ st₂).mono ?_
    rintro r st₃ ⟨hst, e', hr', hw, hrule⟩
    refine ⟨e', hr', Nat.le_trans hw hlight, ?_, hst ▸ hframe, fun hs => ?_, fun hs => ?_⟩
    · rw [hst]
      exact Nat.le_trans (initWeight_of_chain hcs) (initWeight_of_varChain hvars)
    · have h₁ := varChain hR hvars hs
      have hs₁ := hs.trans (.of_rewritten h₁)
      obtain ⟨hes, h₂⟩ := chain hR hcs hs₁
      exact hR.trans _ _ _ (hR.congr (hr.of_visited hes))
        (hrule (hs₁.trans (.of_rewritten h₂)))
    · have h₁ := varChain hR hvars hs
      rw [hst]
      exact h₁.trans hR.trans (chain hR hcs (hs.trans (.of_rewritten h₁))).2

theorem enumVisit (hR : SoundRule rule s₀ R) {id : EnumId}
    (h : EnumVisit (Rewriting R s₀) id st st') (hs : s₀.SameCallees st.store) :
    st.store.Rewritten R st'.store := by
  cases h with
  | @mk entries entries' st₁ hentries hshape hP =>
    obtain ⟨hes, h⟩ := chain hR hP (hs.trans (.of_functions_eq rfl))
    refine { h with enumerations := h.enumerations.around ?_ }
    rintro a b ha ⟨_, hb, _⟩
    refine ⟨entries', by rw [hb], ?_⟩
    have hentries : entries = a.entries := by
      have ha : st.store.enumeration? id = some a := ha
      rw [hentries, ha]
      rfl
    rw [← hentries]
    exact entries_of_trees hshape hes

theorem structVisit (hR : SoundRule rule s₀ R) {id : StructId}
    (h : StructVisit (Rewriting R s₀) id st st') (hs : s₀.SameCallees st.store) :
    st.store.Rewritten R st'.store := by
  cases h with
  | @mk fields fields' st₁ hfields hshape hP =>
    obtain ⟨hes, h⟩ := chain hR hP (hs.trans (.of_functions_eq rfl))
    refine { h with structs := h.structs.around ?_ }
    rintro a b ha ⟨_, hb, _⟩
    refine ⟨fields', by rw [hb], ?_⟩
    have hfields : fields = a.fields := by
      have ha : st.store.struct? id = some a := ha
      rw [hfields, ha]
      rfl
    rw [← hfields]
    exact fields_of_trees hshape hes

theorem functionVisit (hR : SoundRule rule s₀ R) {id : FunctionId}
    (h : FunctionVisit (Rewriting R s₀) id st st') (hs : s₀.SameCallees st.store) :
    st.store.Rewritten R st'.store := by
  cases h with
  | bare _ _ hvars => exact varChain hR hvars hs
  | @body f b b' st₁ st₂ hf hb hvars hP =>
    have h₁ := varChain hR hvars hs
    have hs₁ := hs.trans (.of_rewritten h₁)
    have hs₂ := hs₁.trans (.modifyBody st₁.store id none)
    have h₂ := hP.store hs₂
    refine h₁.trans hR.trans { h₂ with functions := h₂.functions.around ?_ }
    rintro x y hx ⟨_, hy, _⟩
    refine ⟨some b', by rw [hy], ?_⟩
    have hxb : x.body = some b := by
      have hframe := hvars.keeps (L := fun st st' => st.store.VarsOnly st'.store)
        (fun _ => .refl _) .trans (VarVisit.varsOnly Rewriting.frame)
      have hx : st₁.store.function? id = some x := hx
      rw [hframe.function?, hf] at hx
      cases hx
      exact hb
    rw [hxb]
    exact .some (hP.tree hs₂)

/-- A visit of a module rewrites the trees of the store and nothing else. -/
theorem moduleVisit (hR : SoundRule rule s₀ R) {m : ModuleId} {withGenerics : Bool}
    (h : ModuleVisit (Rewriting R s₀) m withGenerics st st') (hs : s₀.SameCallees st.store) :
    st.store.Rewritten R st'.store := by
  let L (st st' : Visit Bool) : Prop :=
    s₀.SameCallees st.store → st.store.Rewritten R st'.store
  have refl (st : Visit Bool) : L st st := fun _ => .refl hR.refl _
  have trans {st st₁ st₂ : Visit Bool} (h₁ : L st st₁) (h₂ : L st₁ st₂) : L st st₂ := fun hs =>
    (h₁ hs).trans hR.trans (h₂ (hs.trans (.of_rewritten (h₁ hs))))
  have code (id : FunctionId) (st st' : Visit Bool) (h : CodeVisit (Rewriting R s₀) id st st') :
      L st st' := by
    unfold CodeVisit at h
    split at h
    · exact h ▸ refl st
    · exact functionVisit hR h
  obtain ⟨st₁, st₂, st₃, st₄, h₁, h₂, h₃, h₄, h₅⟩ := h
  have enums : L st st₁ := h₁.keeps refl trans fun _ _ _ _ h => enumVisit hR h
  have structs : L st₁ st₂ := h₂.keeps refl trans fun _ _ _ _ h => structVisit hR h
  have globals : L st₂ st₃ := h₃.keeps refl trans fun _ _ _ _ h => varVisit hR h
  have generics : L st₃ st₄ := h₄.keeps refl trans fun id _ st st' h => code id st st' h
  have functions : L st₄ st' := h₅.keeps refl trans fun id _ st st' h => code id st st' h
  exact trans (trans (trans (trans enums structs) globals) generics) functions hs

end Rewriting

/-- A pass ends; it rewrites the trees of the program and drops what nothing owns any more. -/
theorem Program.rewrite_ends {rule : Store → Expr → Option Expr} (p : Program)
    (hR : SoundRule rule p.store R) :
    Ends (Program.rewrite rule) p fun _ p' =>
      ∃ s, p.store.Rewritten R s ∧ p' = (p.inStore s).collect := by
  refine (Program.walk_ends
    (Visitor.visitModule_ends (Rewriting.builds hR) p.this false ⟨p.store, false⟩)).mono ?_
  rintro _ p' ⟨st, hvisit, _, hp'⟩
  exact ⟨st.store, Rewriting.moduleVisit hR hvisit (.refl _), hp'⟩

end Frontend
