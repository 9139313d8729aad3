import Frontend.Proofs.Traversal.Initializers
import Frontend.Traversal.Whole

/-!
# Visits of declarations

What a visit of a module does, given what visits of trees do. Each declaration is away from what is
visited inside it, and the declarations of each kind are visited in their order.
-/

namespace Frontend

inductive Run {α ς : Type} (F : α → ς → ς → Prop) : List α → ς → ς → Prop
  | nil {st} : Run F [] st st
  | cons {a as st st₁ st₂} (h : F a st st₁) (hs : Run F as st₁ st₂) : Run F (a :: as) st st₂

namespace Run

variable {α ς : Type} {F F' : α → ς → ς → Prop} {as : List α} {st st' : ς}

theorem keeps {L : ς → ς → Prop} (hr : ∀ st, L st st)
    (ht : ∀ {st st₁ st₂}, L st st₁ → L st₁ st₂ → L st st₂)
    (hF : ∀ a ∈ as, ∀ st st', F a st st' → L st st') (h : Run F as st st') : L st st' := by
  induction h with
  | nil => exact hr _
  | cons h _ ih => exact ht (hF _ (.head _) _ _ h) (ih fun a ha => hF a (.tail _ ha))

theorem loop_ends {f : α → PUnit → StateT ς (Except Fault) (ForInStep PUnit)}
    (hf : ∀ a st, Ends (f a ⟨⟩) st fun r st' => r = .yield ⟨⟩ ∧ F a st st') :
    Ends (do forIn as PUnit.unit f; pure ()) st fun _ st' => Run F as st st' := by
  induction as generalizing st with
  | nil => exact .pure .nil
  | cons a as ih =>
    rw [List.forIn_cons, bind_assoc]
    refine .bind (hf a st) ?_
    rintro r st₁ ⟨hr, hF⟩
    subst hr
    exact ih.mono fun _ st₂ hs => .cons hF hs

theorem of_map {β : Type} (g : β → α) {bs : List β} (h : Run (fun b => F (g b)) bs st st') :
    Run F (bs.map g) st st' := by
  induction h with
  | nil => exact .nil
  | cons h _ ih => exact .cons h ih

end Run

def Store.SameNatives (s s' : Store) : Prop :=
  s'.modules = s.modules ∧ ∀ id, Visitor.isNative s' id = Visitor.isNative s id

namespace Store.SameNatives

variable {s s₁ s₂ : Store}

theorem refl (s : Store) : s.SameNatives s := ⟨rfl, fun _ => rfl⟩

theorem trans (h : s.SameNatives s₁) (h' : s₁.SameNatives s₂) : s.SameNatives s₂ :=
  ⟨h'.1.trans h.1, fun id => (h'.2 id).trans (h.2 id)⟩

theorem module (h : s.SameNatives s₁) (m : ModuleId) : s₁.module m = s.module m := by
  simp only [Store.module, module?, h.1]

theorem of_varsOnly (h : s.VarsOnly s₁) : s.SameNatives s₁ := by
  rw [h]
  exact ⟨rfl, fun _ => rfl⟩

theorem modifyEnumeration (s : Store) (id : EnumId) (f : Enumeration → Enumeration) :
    s.SameNatives (s.modifyEnumeration id f) := ⟨rfl, fun _ => rfl⟩

theorem modifyStruct (s : Store) (id : StructId) (f : Struct → Struct) :
    s.SameNatives (s.modifyStruct id f) := ⟨rfl, fun _ => rfl⟩

theorem modifyBody (s : Store) (id : FunctionId) (body : Option Expr) :
    s.SameNatives (s.modifyFunction id fun f => { f with body }) := by
  refine ⟨rfl, fun other => ?_⟩
  simp only [Visitor.isNative, function?, Store.modifyFunction, Table.get?_modify]
  split
  · cases s.functions.get? other <;> rfl
  · rfl

end Store.SameNatives

variable {σ : Type}

section Declarations

variable (P : Visit σ → Expr → Expr → Visit σ → Prop)

/-- The values of an enumeration are visited away from it. -/
inductive EnumVisit (id : EnumId) (st : Visit σ) : Visit σ → Prop
  | mk {entries entries' st'}
    (h : entries = ((st.store.enumeration? id).getD default).entries)
    (hs : List.Forall₂ (fun x x' : String × Option Expr =>
      x'.1 = x.1 ∧ Option.Rel (fun _ _ => True) x.2 x'.2) entries entries')
    (hP : Chain Eq P
      (st.inStore (st.store.modifyEnumeration id fun e => { e with entries := [] }))
      (entries.flatMap fun x => x.2.toList) (entries'.flatMap fun x => x.2.toList) st') :
    EnumVisit id st
      (st'.inStore (st'.store.modifyEnumeration id fun e => { e with entries := entries' }))

inductive StructVisit (id : StructId) (st : Visit σ) : Visit σ → Prop
  | mk {fields fields' st'} (h : fields = ((st.store.struct? id).getD default).fields)
    (hs : List.Forall₂ (fun f f' : Field =>
      ∃ i, f' = { f with init := i } ∧ Option.Rel (fun _ _ => True) f.init i) fields fields')
    (hP : Chain Eq P (st.inStore (st.store.modifyStruct id fun x => { x with fields := [] }))
      (fields.flatMap fun f => f.init.toList) (fields'.flatMap fun f => f.init.toList) st') :
    StructVisit id st
      (st'.inStore (st'.store.modifyStruct id fun x => { x with fields := fields' }))

inductive FunctionVisit (id : FunctionId) (st : Visit σ) : Visit σ → Prop
  | bare {f st'} (hf : f = (st.store.function? id).getD default) (hb : f.body = none)
    (hvars : VarChain Eq (VarVisit P) st f.args st') : FunctionVisit id st st'
  | body {f b b' st₁ st'} (hf : st.store.function? id = some f) (hb : f.body = some b)
    (hvars : VarChain Eq (VarVisit P) st f.args st₁)
    (hP : P (st₁.inStore (st₁.store.modifyFunction id fun f => { f with body := none })) b b'
      st') :
    FunctionVisit id st
      (st'.inStore (st'.store.modifyFunction id fun f => { f with body := some b' }))

def CodeVisit (id : FunctionId) (st st' : Visit σ) : Prop :=
  if Visitor.isNative st.store id then st' = st else FunctionVisit P id st st'

def ModuleVisit (m : ModuleId) (withGenerics : Bool) (st st' : Visit σ) : Prop :=
  ∃ st₁ st₂ st₃ st₄,
    Run (EnumVisit P) (st.store.module m).enumerations.values st st₁ ∧
    Run (StructVisit P) (st.store.module m).structOrder st₁ st₂ ∧
    Run (fun id st st' => VarVisit P st id st') (st.store.module m).globalOrder st₂ st₃ ∧
    Run (CodeVisit P) (if withGenerics then (st.store.module m).generics.values else []) st₃ st₄ ∧
    Run (CodeVisit P) (st.store.module m).functions.values st₄ st'

end Declarations

namespace Visitor

variable {v : Visitor σ} {P : Visit σ → Expr → Expr → Visit σ → Prop} (hv : v.Builds P)
  {st : Visit σ}

theorem run_child (weight : Nat) (st : Visit σ) :
    (v.child weight).run st = .ok (v.visitIn (v.steps st.store weight), st) := rfl

/-- The initializers have not got heavier than they were in `s`. -/
abbrev Light (s : Store) (st : Visit σ) : Prop := st.store.initWeight ≤ s.initWeight

/-- Trees of at most the given weight are visited as long as the initializers get no heavier. -/
theorem child_visits (hv : v.Builds P) {s : Store} {weight : Nat} {e : Expr}
    (he : e.weight ≤ weight) : Visits (Light s) P (v.visitIn (v.steps s weight)) e := by
  intro st hst
  refine (hv.child_ends hst he).mono ?_
  rintro _ _ ⟨e', hr, hP⟩
  exact ⟨Nat.le_trans (hv.weight hP).2 hst, e', hr, hP⟩

theorem child_enters (hv : v.Builds P) {s : Store} {weight : Nat} (id : VarId) :
    v.Enters (Light s) (VarVisit P) (v.visitIn (v.steps s weight)) id := by
  intro place st hst
  refine (visitVariable_ends hv.calm fun i hi => hv.visitIn_ends _ _ i ?_).mono fun _ st' h =>
    ⟨Nat.le_trans (h.initWeight_le hv.weight) hst, h⟩
  have := Store.initWeight_detach hi
  have := Builds.le_steps v s weight
  simp only [Visit.store_inStore]
  omega

include hv in
theorem visitEnumeration_ends (id : EnumId) (st : Visit σ) :
    Ends (v.visitEnumeration id) st fun r st' => r = .keep ∧ EnumVisit P id st st' := by
  refine .bind_run (store_run st) ?_
  generalize hx : (st.store.enumeration? id).getD default = x
  refine (hv.calm.notice _).bind_ends fun st₁ hst₁ => ?_
  subst hst₁
  refine .bind_run (modifyStore_run _ st) (.bind_run (run_child _ _) ?_)
  refine .bind (visitEach_ends (I := Light _) (E := fun x => x.2.toList) (G := Eq) (P := P)
    (T := fun x x' => x'.1 = x.1 ∧ Option.Rel (fun _ _ => True) x.2 x'.2)
    (fun i last (y : String × Option Expr) hy st' hst' => ?_) (Nat.le_refl _)) ?_
  · refine (hv.calm.notice _).bind_ends fun st₁ hst₁ => ?_
    subst hst₁
    cases hvalue : y.2 with
    | none =>
      exact .pure
        ⟨y, rfl, hst', ⟨rfl, by rw [hvalue]; exact .none⟩, by rw [hvalue]; exact .nil⟩
    | some value =>
      have hw : value.weight ≤ total (fun x => weightOf x.2) x.entries := by
        have := le_total_of_mem (fun x : String × Option Expr => weightOf x.2) hy
        simpa [weightOf, hvalue] using this
      refine .bind (child_visits hv hw st' hst') ?_
      rintro ⟨r, e⟩ st₁ ⟨hI, e', hr, hP⟩
      simp only at hr
      simp only [hr]
      refine (hv.calm.leaveSlot _ e').bind_ends fun st₂ hst₂ => ?_
      subst hst₂
      exact .pure ⟨(y.1, some e'), rfl, hI, ⟨rfl, .some trivial⟩, .single hP⟩
  · rintro entries st' ⟨_, hs, hP⟩
    refine .bind_run (modifyStore_run _ st') ?_
    refine (hv.calm.leaveEnum id).ends fun st'' h => ?_
    subst h
    exact ⟨rfl, .mk (by rw [hx]) hs hP⟩

include hv in
theorem visitStruct_ends (id : StructId) (st : Visit σ) :
    Ends (v.visitStruct id) st fun r st' => r = .keep ∧ StructVisit P id st st' := by
  refine .bind_run (store_run st) ?_
  generalize hx : (st.store.struct? id).getD default = x
  refine (hv.calm.notice _).bind_ends fun st₁ hst₁ => ?_
  subst hst₁
  refine .bind_run (modifyStore_run _ st) (.bind_run (run_child _ _) ?_)
  refine (hv.calm.allows _).bind_ends fun st₁ hst₁ => ?_
  subst hst₁
  refine .bind (visitEach_ends (I := Light _) (E := fun f => f.init.toList) (G := Eq) (P := P)
    (T := fun f f' => ∃ i, f' = { f with init := i } ∧ Option.Rel (fun _ _ => True) f.init i)
    (fun i last (f : Field) hf st' hst' => ?_) (Nat.le_refl _)) ?_
  · have hw : ∀ e ∈ f.init, e.weight ≤ total (fun f => weightOf f.init) x.fields := by
      intro e he
      have := le_total_of_mem (fun f : Field => weightOf f.init) hf
      simpa [weightOf, Option.mem_def.1 he] using this
    refine (hv.calm.notice _).bind_ends fun st₁ hst₁ => ?_
    subst hst₁
    refine (visitType_gives hv.calm f.type).bind_ends fun st₁ hst₁ => ?_
    subst hst₁
    refine .bind (optional_ends (G := Eq) (fun e he => child_visits hv (hw e he)) hst') ?_
    rintro init st₁ ⟨hI, hcs, hr⟩
    refine (hv.calm.notice _).bind_ends fun st₂ hst₂ => ?_
    subst hst₂
    exact .pure ⟨{ f with init }, rfl, hI, ⟨init, rfl, hr⟩, hcs⟩
  · rintro fields st' ⟨_, hs, hP⟩
    refine .bind_run (modifyStore_run _ st') ?_
    refine (hv.calm.leaveStruct id).ends fun st'' h => ?_
    subst h
    exact ⟨rfl, .mk (by rw [hx]) hs hP⟩

/-- The arguments and the result of a function are put back as they were. -/
private theorem refunction {s : Store} {id : FunctionId} {f : Function → Function}
    (h : ∀ x, s.function? id = some x → f x = x) : s.modifyFunction id f = s := by
  unfold Store.modifyFunction
  rw [Table.modify_eq_self h]

private theorem retypeResult (s : Store) (id : FunctionId) :
    ((s.modifyFunction id fun f => { f with result := .blank }).modifyFunction id
      fun f => { f with result := ((s.function? id).getD default).result }) = s := by
  simp only [Store.modifyFunction, Table.modify_modify]
  rw [Table.modify_eq_self]
  intro x hx
  have hx : s.function? id = some x := hx
  simp [hx]

include hv in
theorem visitFunction_ends (id : FunctionId) (st : Visit σ) :
    Ends (v.visitFunction id) st fun r st' => r = .keep ∧ FunctionVisit P id st st' := by
  refine .bind_run (store_run st) ?_
  generalize hf : (st.store.function? id).getD default = f
  refine (hv.calm.notice _).bind_ends fun st₁ hst₁ => ?_
  subst hst₁
  refine .bind_run (run_child _ _) ?_
  refine .bind (fixedVariables_ends (I := Light st.store) (V := VarVisit P) hv.calm
    (fun _ _ h hG => hG ▸ h) (by simp) (fun id _ => child_enters hv id) (Nat.le_refl _)) ?_
  rintro args st₁ ⟨hargs, _, hvars⟩
  subst hargs
  have hf₁ : (st₁.store.function? id).getD default = f := by
    rw [(hv.varsOnly_of_varChain hvars).function?, hf]
  have same : st₁.store.modifyFunction id (fun x => { x with args := f.args }) = st₁.store := by
    refine refunction fun x hx => ?_
    rw [hx] at hf₁
    simp only [Option.getD_some] at hf₁
    rw [← hf₁]
  refine .bind_run (modifyStore_run _ st₁) ?_
  rw [same, Visit.inStore_self]
  refine .bind_run (store_run st₁) (.bind_run (modifyStore_run _ st₁) ?_)
  refine (visitType_gives hv.calm _).bind_ends fun st₂ hst₂ => ?_
  subst hst₂
  refine .bind_run (modifyStore_run _ _) ?_
  simp only [Visit.store_inStore, Visit.inStore_inStore, retypeResult, Visit.inStore_self]
  refine .bind_run (store_run st₁) (.bind_run (modifyStore_run _ st₁) ?_)
  rw [hf₁]
  cases hb : f.body with
  | none =>
    have same : st₁.store.modifyFunction id (fun x => { x with body := none }) = st₁.store := by
      refine refunction fun x hx => ?_
      rw [hx] at hf₁
      simp only [Option.getD_some] at hf₁
      rw [← hf₁] at hb
      rw [← hb]
    rw [same, Visit.inStore_self]
    refine (hv.calm.leaveFunction id).ends fun st₂ hst₂ => ?_
    subst hst₂
    exact ⟨rfl, .bare hf.symm hb hvars⟩
  | some b =>
    have hid : st.store.function? id = some f := by
      cases hid : st.store.function? id with
      | none =>
        rw [hid] at hf
        subst hf
        cases hb
      | some x =>
        rw [hid] at hf
        rw [← hf]
        rfl
    refine (hv.calm.enterSlot _ b).bind_ends fun st₂ hst₂ => ?_
    subst hst₂
    refine .bind_run (run_child _ _) ?_
    refine .bind (required_of_child (hv.child_ends (Nat.le_refl _) (Nat.le_refl _))) ?_
    intro b' st₂ hP
    refine (hv.calm.leaveSlot _ b').bind_ends fun st₃ hst₃ => ?_
    subst hst₃
    refine .bind_run (modifyStore_run _ st₂) ?_
    refine (hv.calm.leaveFunction id).ends fun st₃ hst₃ => ?_
    subst hst₃
    exact ⟨rfl, .body hid hb hvars hP⟩

section Natives

variable {st' : Visit σ}

include hv in
theorem sameNatives_of_enumVisit {id : EnumId} (h : EnumVisit P id st st') :
    st.store.SameNatives st'.store := by
  cases h with
  | mk _ _ hP =>
    exact ((Store.SameNatives.modifyEnumeration _ id _).trans
      (.of_varsOnly (hv.varsOnly_of_chain hP))).trans (.modifyEnumeration _ id _)

include hv in
theorem sameNatives_of_structVisit {id : StructId} (h : StructVisit P id st st') :
    st.store.SameNatives st'.store := by
  cases h with
  | mk _ _ hP =>
    exact ((Store.SameNatives.modifyStruct _ id _).trans
      (.of_varsOnly (hv.varsOnly_of_chain hP))).trans (.modifyStruct _ id _)

include hv in
theorem sameNatives_of_codeVisit {id : FunctionId} (h : CodeVisit P id st st') :
    st.store.SameNatives st'.store := by
  unfold CodeVisit at h
  split at h
  · rw [h]
    exact .refl _
  · cases h with
    | bare _ _ hvars => exact .of_varsOnly (hv.varsOnly_of_varChain hvars)
    | body _ _ hvars hP =>
      have h₁ := Store.SameNatives.of_varsOnly (hv.varsOnly_of_varChain hvars)
      have h₂ := Store.SameNatives.of_varsOnly (hv.frame hP)
      exact ((h₁.trans (.modifyBody _ id none)).trans h₂).trans (.modifyBody _ id _)

end Natives

include hv in
theorem visitEnumerations_ends (m : ModuleId) (st : Visit σ) :
    Ends (v.visitEnumerations m) st fun _ st' =>
      Run (EnumVisit P) (st.store.module m).enumerations.values st st' := by
  refine .bind_run (store_run st) ?_
  refine Run.loop_ends fun id st => ?_
  refine .bind (visitEnumeration_ends hv id st) ?_
  rintro r st' ⟨hr, h⟩
  subst hr
  exact .pure ⟨rfl, h⟩

include hv in
theorem visitStructs_ends (m : ModuleId) (st : Visit σ) :
    Ends (v.visitStructs m) st fun _ st' =>
      Run (StructVisit P) (st.store.module m).structOrder st st' := by
  refine .bind_run (store_run st) ?_
  refine Run.loop_ends fun id st => ?_
  refine .bind (visitStruct_ends hv id st) ?_
  rintro r st' ⟨hr, h⟩
  subst hr
  exact .pure ⟨rfl, h⟩

include hv in
/-- The types that aliases stand for are left as they are. -/
theorem visitAliases_ends (m : ModuleId) (st : Visit σ) :
    Ends (v.visitAliases m) st fun _ st' => st = st' := by
  have entries (l : List (String × Ty)) :
      Gives Eq (l.mapM fun e => return (e.1, ← v.visitType e.2)) l :=
    mapM_gives hv.calm fun e _ => hv.calm.bind (visitType_gives hv.calm e.2) (hv.calm.pure e)
  refine .bind_run (store_run st) (.bind_run (modifyStore_run _ st) ?_)
  refine (entries _).bind_ends fun st₁ hst₁ => ?_
  subst hst₁
  refine ⟨(), _, modifyStore_run _ _, ?_⟩
  simp only [NameMap.ofList_toList, Visit.store_inStore, Visit.inStore_inStore, Store.modifyModule,
    Table.modify_modify]
  rw [Table.modify_eq_self]
  · exact st.inStore_self.symm
  · intro x hx
    simp [Store.module, Store.module?, hx]

include hv in
theorem visitGlobals_ends (m : ModuleId) (st : Visit σ) :
    Ends (v.visitGlobals m) st fun _ st' =>
      Run (fun id st st' => VarVisit P st id st') (st.store.module m).globalOrder st st' := by
  refine .bind_run (store_run st) ?_
  refine Run.loop_ends fun id st => ?_
  refine (hv.calm.enterVariable _ id false).bind_ends fun st₁ hst₁ => ?_
  subst hst₁
  refine .bind_run (run_child _ _) ?_
  refine .bind (child_enters hv id .global st (Nat.le_refl _)) ?_
  rintro _ st₁ ⟨_, h⟩
  refine (hv.calm.leaveVariable _ id false).bind_ends fun st₂ hst₂ => ?_
  subst hst₂
  exact .pure ⟨rfl, h⟩

include hv in
theorem visitGenerics_ends (m : ModuleId) (st : Visit σ) :
    Ends (v.visitGenerics m) st fun _ st' =>
      Run (CodeVisit P) (st.store.module m).generics.values st st' := by
  refine .bind_run (store_run st) ?_
  refine (Run.loop_ends (F := fun (e : String × FunctionId) => CodeVisit P e.2)
    fun (name, id) st => ?_).mono fun _ _ h => h.of_map _
  refine .bind_run (store_run st) ?_
  unfold CodeVisit
  split
  · exact .pure ⟨rfl, rfl⟩
  · refine .bind (visitFunction_ends hv id st) ?_
    rintro r st' ⟨hr, h⟩
    subst hr
    exact .pure ⟨rfl, h⟩

include hv in
theorem visitFunctions_ends (m : ModuleId) (st : Visit σ) :
    Ends (v.visitFunctions m) st fun _ st' =>
      Run (CodeVisit P) (st.store.module m).functions.values st st' := by
  refine .bind_run (store_run st) ?_
  refine (Run.loop_ends (F := fun (e : String × FunctionId) => CodeVisit P e.2)
    fun (name, id) st => ?_).mono fun _ _ h => h.of_map _
  refine .bind_run (store_run st) ?_
  unfold CodeVisit
  split
  · exact .pure ⟨rfl, rfl⟩
  · refine .bind_run (store_run st) ?_
    refine (hv.calm.allows _).bind_ends fun st₁ hst₁ => ?_
    subst hst₁
    refine .bind (visitFunction_ends hv id st) ?_
    rintro r st' ⟨hr, h⟩
    subst hr
    exact .pure ⟨rfl, h⟩

include hv in
/-- A module is visited without a fault, declaration by declaration. -/
theorem visitModule_ends (m : ModuleId) (withGenerics : Bool) (st : Visit σ) :
    Ends (v.visitModule m withGenerics) st fun _ st' => ModuleVisit P m withGenerics st st' := by
  refine .bind_run (store_run st) ?_
  refine (hv.calm.notice _).bind_ends fun st₀ hst₀ => ?_
  subst hst₀
  refine .bind (visitEnumerations_ends hv m st) fun _ st₁ h₁ => ?_
  have n₁ := h₁.keeps (L := fun st st' => st.store.SameNatives st'.store) (fun _ => .refl _) .trans
    fun id _ st st' h => sameNatives_of_enumVisit hv h
  refine .bind (visitStructs_ends hv m st₁) fun _ st₂ h₂ => ?_
  have n₂ := h₂.keeps (L := fun st st' => st.store.SameNatives st'.store) (fun _ => .refl _) .trans
    fun id _ st st' h => sameNatives_of_structVisit hv h
  refine .bind (visitAliases_ends hv m st₂) fun _ st₀ hst₀ => ?_
  subst hst₀
  refine (hv.calm.notice _).bind_ends fun st₀ hst₀ => ?_
  subst hst₀
  refine (hv.calm.notice _).bind_ends fun st₀ hst₀ => ?_
  subst hst₀
  refine .bind (visitGlobals_ends hv m _) fun _ st₃ h₃ => ?_
  have n₃ := h₃.keeps (L := fun st st' => st.store.SameNatives st'.store) (fun _ => .refl _) .trans
    fun id _ st st' h => .of_varsOnly (h.varsOnly hv.frame)
  have n₁₃ := (n₁.trans n₂).trans n₃
  rw [n₁.module m] at h₂
  rw [(n₁.trans n₂).module m] at h₃
  refine (hv.calm.notice _).bind_ends fun st₀ hst₀ => ?_
  subst hst₀
  have functions (st₄ : Visit σ) (h₄ : Run (CodeVisit P)
      (if withGenerics then (st.store.module m).generics.values else []) st₃ st₄) :
      Ends (do v.visitFunctions m; v.notice (.programEnd (st.store.module m).name)) st₄
        fun _ st' => ModuleVisit P m withGenerics st st' := by
    have n₄ := h₄.keeps (L := fun st st' => st.store.SameNatives st'.store) (fun _ => .refl _)
      .trans fun id _ st st' h => sameNatives_of_codeVisit hv h
    refine .bind (visitFunctions_ends hv m st₄) fun _ st₅ h₅ => ?_
    rw [(n₁₃.trans n₄).module m] at h₅
    refine (hv.calm.notice _).ends fun st₀ hst₀ => ?_
    subst hst₀
    exact ⟨st₁, st₂, st₃, st₄, h₁, h₂, h₃, h₄, h₅⟩
  cases withGenerics with
  | false => exact functions st₃ .nil
  | true =>
    refine .bind (visitGenerics_ends hv m st₃) fun _ st₄ h₄ => ?_
    rw [n₁₃.module m] at h₄
    exact functions st₄ h₄

end Visitor

def Program.inStore (p : Program) (s : Store) : Program := { p with store := s }

/-- A walk of a program is a visit of its module and a collection. -/
theorem Program.walk_ends {v : Visitor σ} {user : σ} {withGenerics : Bool} {p : Program}
    {Q : Visit σ → Prop}
    (h : Ends (v.visitModule p.this withGenerics) ⟨p.store, user⟩ fun _ st => Q st) :
    Ends (Program.walk v user withGenerics) p fun user' p' =>
      ∃ st, Q st ∧ user' = st.user ∧ p' = (p.inStore st.store).collect := by
  obtain ⟨_, st, hrun, hQ⟩ := h
  have hvisit : (Program.visiting user (v.visitModule p.this withGenerics)).run p =
      .ok (((), st.user), { p with store := st.store }) := by
    simp only [Program.visiting, StateT.run_bind, StateT.run_get, pure_bind, hrun]
    rfl
  have hget : (get : ProgramM Program).run p = .ok (p, p) := rfl
  refine .bind_run hget (.bind_run hvisit ?_)
  exact ⟨st.user, { p with store := st.store }.collect, rfl, st, hQ, rfl, rfl⟩

end Frontend
