import Frontend.Proofs.Registration.Stamping
import Frontend.Proofs.Registration.Succession
import Frontend.Proofs.Traversal.Moving

/-!
# What a traversal leaves of a registry

A traversal changes trees, types and variables, fields of structures and entries of enumerations,
and what a module knows of its globals and functions. Of structures and enumerations it changes
neither names nor stamps, and what a module knows of them it changes by the answers for them only.
-/

namespace Frontend

/-- What a table keeps of every object that exists: that it exists and what `f` reads off it. -/
def Table.Keeps {kind : ObjectKind} {α β : Type} (f : α → β) (t t' : Table kind α) : Prop :=
  ∀ id a, t.get? id = some a → ∃ b, t'.get? id = some b ∧ f b = f a

namespace Table.Keeps

variable {kind : ObjectKind} {α β : Type} {f : α → β} {t t₁ t₂ : Table kind α}

theorem refl (f : α → β) (t : Table kind α) : t.Keeps f t := fun _ a ha => ⟨a, ha, rfl⟩

theorem trans (h : t.Keeps f t₁) (h' : t₁.Keeps f t₂) : t.Keeps f t₂ := by
  intro id a ha
  obtain ⟨b, hb, hba⟩ := h id a ha
  obtain ⟨c, hc, hcb⟩ := h' id b hb
  exact ⟨c, hc, hcb.trans hba⟩

theorem modify (t : Table kind α) (id : Id kind) {g : α → α} (hg : ∀ a, f (g a) = f a) :
    t.Keeps f (t.modify id g) := by
  intro other a ha
  rw [get?_modify, ha]
  split
  · exact ⟨g a, rfl, hg a⟩
  · exact ⟨a, rfl, rfl⟩

theorem map_get? (h : t.Keeps f t₁) (id : Id kind) (b : β) (hb : (t.get? id).map f = some b) :
    (t₁.get? id).map f = some b := by
  obtain ⟨a, ha, rfl⟩ := Option.map_eq_some_iff.1 hb
  obtain ⟨a', ha', hf⟩ := h id a ha
  rw [ha', Option.map_some, hf]

theorem isSome (h : t.Keeps f t₁) {id : Id kind} (ha : (t.get? id).isSome = true) :
    (t₁.get? id).isSome = true := by
  obtain ⟨a, ha⟩ := Option.isSome_iff_exists.1 ha
  obtain ⟨b, hb, -⟩ := h id a ha
  rw [hb, Option.isSome_some]

end Table.Keeps

def Struct.mark (x : Struct) : String × Option String := (x.name, x.module?)

def Enumeration.mark (e : Enumeration) : String × Option String := (e.name, e.module?)

def Module.registry (x : Module) : String × NameMap StructId × List StructId × NameMap EnumId :=
  (x.name, x.structs, x.structOrder, x.enumerations)

def Module.globalRegistry (x : Module) : String × NameMap VarId × List VarId :=
  (x.name, x.globals, x.globalOrder)

namespace Store

variable {s t u : Store} {m : ModuleId}

def structMark (s : Store) (id : StructId) : Mark := (s.struct? id).map Struct.mark

def enumMark (s : Store) (id : EnumId) : Mark := (s.enumeration? id).map Enumeration.mark

structure KeepsMarks (s t : Store) : Prop where
  structs : s.structs.Keeps Struct.mark t.structs
  enumerations : s.enumerations.Keeps Enumeration.mark t.enumerations

theorem KeepsMarks.trans (h : s.KeepsMarks t) (h' : t.KeepsMarks u) : s.KeepsMarks u :=
  ⟨h.structs.trans h'.structs, h.enumerations.trans h'.enumerations⟩

theorem read_module {α : Type} {read : Module → α}
    (h : (t.module? m).map read = (s.module? m).map read) :
    read (t.module m) = read (s.module m) := by
  unfold Store.module
  cases hs : s.module? m with
  | none =>
    rw [hs, Option.map_none, Option.map_eq_none_iff] at h
    rw [h]
  | some x =>
    rw [hs, Option.map_some] at h
    obtain ⟨y, hy, hyx⟩ := Option.map_eq_some_iff.1 h
    rw [hy]
    exact hyx

theorem map_modifyModule {α : Type} {read : Module → α} (n : ModuleId) {g : Module → Module}
    (hg : ∀ x, read (g x) = read x) :
    ((s.modifyModule n g).module? m).map read = (s.module? m).map read := by
  simp only [Store.module?, Store.modifyModule, Table.get?_modify]
  split
  · rw [Option.map_map]
    exact congrArg (Option.map · _) (funext hg)
  · rfl

structure KeepsRegistry (m : ModuleId) (s t : Store) : Prop where
  module? : (t.module? m).map Module.registry = (s.module? m).map Module.registry
  structs : s.structs.Keeps Struct.mark t.structs
  enumerations : s.enumerations.Keeps Enumeration.mark t.enumerations

namespace KeepsRegistry

theorem refl (m : ModuleId) (s : Store) : s.KeepsRegistry m s := ⟨rfl, .refl _ _, .refl _ _⟩

theorem trans (h : s.KeepsRegistry m t) (h' : t.KeepsRegistry m u) : s.KeepsRegistry m u :=
  ⟨h'.module?.trans h.module?, h.structs.trans h'.structs, h.enumerations.trans h'.enumerations⟩

theorem marks (h : s.KeepsRegistry m t) : s.KeepsMarks t := ⟨h.structs, h.enumerations⟩

theorem registry (h : s.KeepsRegistry m t) : (t.module m).registry = (s.module m).registry :=
  read_module h.module?

theorem isSome (h : s.KeepsRegistry m t) : (t.module? m).isSome = (s.module? m).isSome := by
  have := congrArg Option.isSome h.module?
  rwa [Option.isSome_map, Option.isSome_map] at this

theorem modifyVariable (id : VarId) (g : Variable → Variable) :
    s.KeepsRegistry m (s.modifyVariable id g) := ⟨rfl, .refl _ _, .refl _ _⟩

theorem modifyFunction (id : FunctionId) (g : Function → Function) :
    s.KeepsRegistry m (s.modifyFunction id g) := ⟨rfl, .refl _ _, .refl _ _⟩

theorem modifyStruct (id : StructId) {g : Struct → Struct} (hg : ∀ x, (g x).mark = x.mark) :
    s.KeepsRegistry m (s.modifyStruct id g) := ⟨rfl, .modify _ id hg, .refl _ _⟩

theorem modifyEnumeration (id : EnumId) {g : Enumeration → Enumeration}
    (hg : ∀ e, (g e).mark = e.mark) : s.KeepsRegistry m (s.modifyEnumeration id g) :=
  ⟨rfl, .refl _ _, .modify _ id hg⟩

theorem modifyModule (n : ModuleId) {g : Module → Module} (hg : ∀ x, (g x).registry = x.registry) :
    s.KeepsRegistry m (s.modifyModule n g) := ⟨map_modifyModule n hg, .refl _ _, .refl _ _⟩

theorem registerVariable (n : ModuleId) (id : VarId) :
    s.KeepsRegistry m (s.registerVariable n id).2 := by
  unfold Store.registerVariable
  dsimp only
  split
  · exact .refl m s
  · exact (modifyVariable id _).trans (modifyModule n fun _ => rfl)

end KeepsRegistry

end Store

def Visit.KeepsRegistry {σ : Type} (m : ModuleId) (st st' : Visit σ) : Prop :=
  st.store.KeepsRegistry m st'.store

namespace Visitor

variable {σ : Type} {v : Visitor σ} {m : ModuleId} {L : Visit σ → Visit σ → Prop}

/-- Every hook moves the state along a relation, and so does what a walk changes by itself: types
and initializers of variables, functions, fields of structures, entries of enumerations, and what
the module knows of its aliases and its functions. -/
structure Walks (v : Visitor σ) (m : ModuleId) (L : Visit σ → Visit σ → Prop) : Prop
    extends v.Follows L where
  modifyFunction : ∀ st id g, L st (st.inStore (st.store.modifyFunction id g))
  modifyStruct : ∀ st id g, (∀ x, (g x).mark = x.mark) →
    L st (st.inStore (st.store.modifyStruct id g))
  modifyEnumeration : ∀ st id g, (∀ e, (g e).mark = e.mark) →
    L st (st.inStore (st.store.modifyEnumeration id g))
  modifyModule : ∀ st g,
    (∀ x, (g x).registry = x.registry ∧ (g x).globalRegistry = x.globalRegistry) →
      L st (st.inStore (st.store.modifyModule m g))

theorem MovesAlong.walks (hv : v.MovesAlong (Visit.KeepsRegistry m)) :
    v.Walks m (Visit.KeepsRegistry m) where
  toFollows := hv.follows
  modifyFunction _ id g := .modifyFunction id g
  modifyStruct _ id _ hg := .modifyStruct id hg
  modifyEnumeration _ id _ hg := .modifyEnumeration id hg
  modifyModule _ _ hg := .modifyModule m fun x => (hg x).1

/-- Work that does its last step with `k`, and moves the state along `L` before. -/
def LeadsTo {α : Type} (L : Visit σ → Visit σ → Prop) (k work : VisitM σ α) : Prop :=
  ∀ st a st', work.run st = .ok (a, st') → ∃ st₁, L st st₁ ∧ k.run st₁ = .ok (a, st')

theorem Follows.leadsTo_self {α : Type} (hv : v.Follows L) (k : VisitM σ α) : LeadsTo L k k :=
  fun st _ _ h => ⟨st, hv.refl st, h⟩

theorem Follows.leadsTo_bind {α β : Type} (hv : v.Follows L) {k : VisitM σ α} {work : VisitM σ β}
    {f : β → VisitM σ α} (hwork : Moves L work) (hf : ∀ b, LeadsTo L k (f b)) :
    LeadsTo L k (work >>= f) := by
  intro st a st' h
  obtain ⟨b, st₁, hb, h⟩ := exists_of_bind h
  obtain ⟨st₂, hL, hk⟩ := hf b _ _ _ h
  exact ⟨st₂, hv.trans (hwork _ _ _ hb) hL, hk⟩

theorem Follows.moves_of_leadsTo {α : Type} (hv : v.Follows L) {k work : VisitM σ α}
    (hk : Moves L k) (h : LeadsTo L k work) : Moves L work := by
  intro st a st' hrun
  obtain ⟨st₁, hL, hend⟩ := h st a st' hrun
  exact hv.trans hL (hk _ _ _ hend)

theorem moves_modifyStore {f : Store → Store} (h : ∀ s : Store, s.KeepsRegistry m (f s)) :
    Moves (Visit.KeepsRegistry m) (VisitM.modifyStore (σ := σ) f) :=
  .modifyStore fun st => h st.store

theorem Follows.leadsTo_child {α : Type} (hv : v.Follows L) {weight : Nat} {k : VisitM σ α}
    {f : Child σ → VisitM σ α}
    (hf : ∀ child : Child σ, (∀ e, Moves L (child e)) → LeadsTo L k (f child)) :
    LeadsTo L k (v.child weight >>= f) := by
  intro st a st' h
  obtain ⟨child, st₁, hchild, h⟩ := exists_of_bind h
  cases hchild
  exact hf _ (hv.visitIn _) _ _ _ h

theorem Follows.moves_child {α : Type} (hv : v.Follows L) {weight : Nat}
    {f : Child σ → VisitM σ α}
    (hf : ∀ child : Child σ, (∀ e, Moves L (child e)) → Moves L (f child)) :
    Moves L (v.child weight >>= f) := by
  intro st a st' h
  obtain ⟨child, st₁, hchild, h⟩ := exists_of_bind h
  cases hchild
  exact hf _ (hv.visitIn _) _ _ _ h

/-- A replacement is registered, or the work fails. -/
theorem refile_moves {add : Store → Bool × Store}
    (hadd : ∀ st : Visit σ, L st (st.inStore (add st.store).2)) (what against : String) :
    Moves L (refile (σ := σ) add what against) := by
  intro st a st' h
  obtain ⟨s, st₁, hs, h⟩ := exists_of_bind h
  cases hs
  cases hadded : (add st.store).1 with
  | true =>
    simp only [hadded, if_true] at h
    cases h
    exact hadd st
  | false =>
    simp only [hadded] at h
    cases h

section Declarations

variable (hv : v.Walks m L)

include hv

/-- A visit of an enumeration ends in its hook. -/
theorem visitEnumeration_leadsTo (id : EnumId) :
    LeadsTo L (v.leaveEnum id) (v.visitEnumeration id) := by
  refine hv.leadsTo_bind hv.store fun _ => hv.leadsTo_bind (hv.notice _) fun _ =>
    hv.leadsTo_bind (.modifyStore fun st => hv.modifyEnumeration st id _ fun _ => rfl) fun _ =>
    hv.leadsTo_child fun child hc =>
    hv.leadsTo_bind (hv.visitEach (fun _ last x => ?_) 0 _) fun _ =>
    hv.leadsTo_bind (.modifyStore fun st => hv.modifyEnumeration st id _ fun _ => rfl) fun _ =>
    hv.leadsTo_self _
  refine hv.bind (hv.notice _) fun _ => ?_
  cases x.2 with
  | none => exact hv.pure _
  | some value =>
    refine hv.bind (hc value) fun r => ?_
    dsimp only
    split
    · exact hv.pure _
    · exact hv.bind (hv.leaveSlot _ _) fun _ => hv.pure _

/-- A visit of a structure ends in its hook. -/
theorem visitStruct_leadsTo (id : StructId) :
    LeadsTo L (v.leaveStruct id) (v.visitStruct id) := by
  refine hv.leadsTo_bind hv.store fun _ => hv.leadsTo_bind (hv.notice _) fun _ =>
    hv.leadsTo_bind (.modifyStore fun st => hv.modifyStruct st id _ fun _ => rfl) fun _ =>
    hv.leadsTo_child fun child hc => hv.leadsTo_bind (hv.allows _) fun enters =>
    hv.leadsTo_bind (hv.visitEach (fun _ last f => ?_) 0 _) fun _ =>
    hv.leadsTo_bind (.modifyStore fun st => hv.modifyStruct st id _ fun _ => rfl) fun _ =>
    hv.leadsTo_self _
  refine hv.bind (hv.notice _) fun _ => hv.bind (hv.visitType _) fun _ => ?_
  cases enters with
  | false =>
    exact hv.bind (hv.pure _) fun _ => hv.bind (hv.notice _) fun _ => hv.pure _
  | true =>
    exact hv.bind (hv.optional hc _) fun _ => hv.bind (hv.notice _) fun _ => hv.pure _

theorem visitAliases_moves : Moves L (v.visitAliases m) := by
  have entries (l : List (String × Ty)) :
      Moves L (l.mapM fun e => return (e.1, ← v.visitType e.2)) :=
    hv.mapM (fun e => hv.bind (hv.visitType e.2) fun _ => hv.pure _) l
  exact hv.bind hv.store fun _ =>
    hv.bind (.modifyStore fun st => hv.modifyModule st _ fun _ => ⟨rfl, rfl⟩) fun _ =>
    hv.bind (entries _) fun _ => .modifyStore fun st => hv.modifyModule st _ fun _ => ⟨rfl, rfl⟩

theorem visitFunction_moves (id : FunctionId) : Moves L (v.visitFunction id) := by
  have modify (g : Function → Function) :
      Moves L (VisitM.modifyStore (σ := σ) (·.modifyFunction id g)) :=
    .modifyStore fun st => hv.modifyFunction st id g
  refine hv.bind hv.store fun _ => hv.bind (hv.notice _) fun _ => hv.moves_child fun child hc =>
    hv.bind (hv.fixedVariables hc _ _) fun _ => hv.bind (modify _) fun _ =>
    hv.bind hv.store fun _ => hv.bind (modify _) fun _ => hv.bind (hv.visitType _) fun _ =>
    hv.bind (modify _) fun _ => hv.bind hv.store fun s => hv.bind (modify _) fun _ => ?_
  cases ((s.function? id).getD default).body with
  | none => exact hv.leaveFunction id
  | some body =>
    refine hv.bind (hv.enterSlot _ body) fun _ => hv.moves_child fun child hc =>
      hv.bind (hv.required hc body) fun body => hv.bind (hv.leaveSlot _ body) fun r => ?_
    cases r.apply body with
    | none => exact hv.bind (.fail _) fun _ => hv.leaveFunction id
    | some body => exact hv.bind (modify _) fun _ => hv.leaveFunction id

theorem registerOn_moves (st : Visit σ) (shelf : Shelf) (id : FunctionId) :
    L st (st.inStore (st.store.registerOn shelf m id).2) := by
  cases hfind :
    (shelf.of (st.store.module m)).find? (st.store.nameIn (st.store.module m).name id) with
  | some other =>
    rw [Store.registerOn_of_taken rfl hfind]
    exact hv.modifyFunction st id _
  | none =>
    rw [Store.registerOn_of_free rfl hfind]
    exact hv.trans (hv.modifyFunction st id _) (hv.modifyModule _ _ fun x => by
      cases shelf <;> exact ⟨rfl, rfl⟩)

/-- What becomes of an overload that has been visited. -/
theorem overload_moves {id : FunctionId} {unregister : Store → Store}
    {add : FunctionId → Store → Bool × Store} {what against : String}
    (hunregister : ∀ st : Visit σ, L st (st.inStore (unregister st.store)))
    (hadd : ∀ new (st : Visit σ), L st (st.inStore (add new st.store).2)) :
    Moves L (do
      match ← v.visitFunction id with
      | .keep => pure (ForInStep.yield PUnit.unit)
      | .replace new =>
        VisitM.modifyStore unregister
        refile (add new) what against
        pure (ForInStep.yield PUnit.unit)
      | .remove =>
        VisitM.modifyStore unregister
        pure (ForInStep.yield PUnit.unit)) := by
  refine hv.bind (visitFunction_moves hv id) fun r => ?_
  cases r with
  | keep => exact hv.pure _
  | replace new =>
    exact hv.bind (.modifyStore hunregister) fun _ => hv.bind (refile_moves (hadd new) _ _)
      fun _ => hv.pure _
  | remove => exact hv.bind (.modifyStore hunregister) fun _ => hv.pure _

theorem visitGenerics_moves : Moves L (v.visitGenerics m) := by
  refine hv.bind hv.store fun _ => hv.bind (hv.forIn (fun (name, id) => ?_) _) fun _ => hv.pure _
  refine hv.bind hv.store fun s => ?_
  split
  · exact hv.pure _
  · exact overload_moves hv (fun st => hv.modifyModule st _ fun _ => ⟨rfl, rfl⟩)
      fun new st => registerOn_moves hv st .generics new

theorem visitFunctions_moves : Moves L (v.visitFunctions m) := by
  refine hv.bind hv.store fun _ => hv.bind (hv.forIn (fun (name, id) => ?_) _) fun _ => hv.pure _
  refine hv.bind hv.store fun s => ?_
  split
  · exact hv.pure _
  · refine hv.bind hv.store fun s => hv.bind (hv.allows _) fun enters => ?_
    cases enters with
    | false => exact hv.pure _
    | true =>
      exact overload_moves hv (fun st => hv.modifyModule st _ fun _ => ⟨rfl, rfl⟩)
        fun new st => registerOn_moves hv st .functions new

end Declarations

/-- Globals are no part of what a module knows of its structures and enumerations. -/
theorem visitGlobals_moves (hv : v.Walks m (Visit.KeepsRegistry m)) :
    Moves (Visit.KeepsRegistry m) (v.visitGlobals m) := by
  refine hv.bind hv.store fun _ => hv.bind (hv.forIn (fun id => ?_) _) fun _ => hv.pure _
  refine hv.bind (hv.enterVariable .global id false) fun _ => hv.moves_child fun child hc =>
    hv.bind (hv.visitVariable hc .global id) fun _ =>
    hv.bind (hv.leaveVariable .global id false) fun r => ?_
  have unregister : Moves (Visit.KeepsRegistry m)
      (VisitM.modifyStore (σ := σ) (·.unregisterVariable m id)) :=
    moves_modifyStore fun s => .modifyModule m fun _ => rfl
  cases r with
  | keep => exact hv.pure _
  | replace new =>
    exact hv.bind unregister fun _ => hv.bind (refile_moves (fun _ => .registerVariable m new) _ _)
      fun _ => hv.pure _
  | remove => exact hv.bind unregister fun _ => hv.pure _

end Visitor

end Frontend
