import Frontend.Proofs.Layout.Staying
import Frontend.Proofs.Optimizer.Idle
import Frontend.Proofs.Registration.Stamping

/-!
# Links to the declarations of a renamed module

A renaming stamps structures and enumerations where they are, and puts copies in the place of the
annotations. So links of types to the former lead where they led, and those to the latter lead to
objects that the module does not hold any more.
-/

namespace Frontend

/-- What a part of a table holds for an id is what another table holds, if either has it and they
agree about it. -/
theorem Table.map_get?_of_partOf {kind : ObjectKind} {α β : Type} {s t r : Table kind α} {g : α → β}
    {id : Id kind} (h : t.PartOf r) (alive : t.isAlive id = s.isAlive id)
    (same : ∀ a, s.get? id = some a → (r.get? id).map g = some (g a)) :
    (t.get? id).map g = (s.get? id).map g := by
  unfold Table.isAlive at alive
  cases hs : s.get? id with
  | none =>
    rw [hs, Option.isSome_none, Option.isSome_eq_false_iff, Option.isNone_iff_eq_none] at alive
    rw [alive, Option.map_none]
  | some a =>
    rw [hs, Option.isSome_some, Option.isSome_iff_exists] at alive
    obtain ⟨b, hb⟩ := alive
    have hr := same a hs
    rw [h id b hb] at hr
    rw [hb, hr, Option.map_some]

section Entries

variable {α β : Type} {R : α → β → Prop} {l : List (String × α)} {l' : List (String × β)}

/-- Lists of entries with the same names look up to what stands at the same place. -/
theorem lookup_of_forall₂ (h : List.Forall₂ (fun e e' => e'.1 = e.1 ∧ R e.2 e'.2) l l')
    (name : String) : Option.Rel R (l.lookup name) (l'.lookup name) := by
  induction h with
  | nil => exact .none
  | @cons e e' l l' he _ ih =>
    rw [List.lookup_cons, List.lookup_cons, he.1]
    cases name == e.1 with
    | true => exact .some he.2
    | false => exact ih

theorem names_of_forall₂ (h : List.Forall₂ (fun e e' => e'.1 = e.1 ∧ R e.2 e'.2) l l') :
    l'.map (·.1) = l.map (·.1) := by
  induction h with
  | nil => rfl
  | cons he _ ih => rw [List.map_cons, List.map_cons, he.1, ih]

/-- Entries with the names of a map make a map. -/
theorem NameMap.toList_ofList_of_forall₂ {x : NameMap α}
    (h : List.Forall₂ (fun e e' => e'.1 = e.1 ∧ R e.2 e'.2) x.toList l') :
    (NameMap.ofList l').toList = l' := by
  have ascending : (l'.map (·.1)).Pairwise (· < ·) := by
    rw [names_of_forall₂ h, List.pairwise_map]
    exact x.ascending
  exact congrArg NameMap.toList (NameMap.ofList_toList ⟨l', List.pairwise_map.1 ascending⟩)

end Entries

namespace Store

variable {s t u : Store} {m : ModuleId} {x : Module} {name : String}

/-- Objects own what they owned, and structures and enumerations are what they were, up to the
modules that they are stamped with. -/
structure SameUpToStamps (s t : Store) : Prop where
  functions : Table.Agree (fun f f' => f'.holdings = f.holdings) s.functions t.functions
  structs : Table.Agree (fun x x' => x'.unstamped = x.unstamped) s.structs t.structs
  enumerations : Table.Agree (fun e e' => e'.unstamped = e.unstamped) s.enumerations t.enumerations
  vars : Table.Agree (fun v v' => v'.holdings = v.holdings) s.vars t.vars
  rewriters : t.rewriters = s.rewriters

namespace SameUpToStamps

theorem refl (s : Store) : s.SameUpToStamps s where
  functions := .refl (T := fun f f' : Function => f'.holdings = f.holdings) (fun _ => rfl) _
  structs := .refl (T := fun x x' : Struct => x'.unstamped = x.unstamped) (fun _ => rfl) _
  enumerations := .refl (T := fun e e' : Enumeration => e'.unstamped = e.unstamped) (fun _ => rfl) _
  vars := .refl (T := fun v v' : Variable => v'.holdings = v.holdings) (fun _ => rfl) _
  rewriters := rfl

theorem trans (h : s.SameUpToStamps t) (h' : t.SameUpToStamps u) : s.SameUpToStamps u where
  functions := h.functions.trans (fun _ _ _ h h' => h'.trans h) h'.functions
  structs := h.structs.trans (fun _ _ _ h h' => h'.trans h) h'.structs
  enumerations := h.enumerations.trans (fun _ _ _ h h' => h'.trans h) h'.enumerations
  vars := h.vars.trans (fun _ _ _ h h' => h'.trans h) h'.vars
  rewriters := h'.rewriters.trans h.rewriters

end SameUpToStamps

structure OnlyStamps (s t : Store) : Prop extends s.SameUpToStamps t where
  annots : t.annots = s.annots
  modules : t.modules = s.modules

namespace OnlyStamps

theorem refl (s : Store) : s.OnlyStamps s :=
  { SameUpToStamps.refl s with annots := rfl, modules := rfl }

theorem trans (h : s.OnlyStamps t) (h' : t.OnlyStamps u) : s.OnlyStamps u :=
  { h.toSameUpToStamps.trans h'.toSameUpToStamps with
    annots := h'.annots.trans h.annots
    modules := h'.modules.trans h.modules }

theorem modifyFunction (s : Store) (id : FunctionId) (name : String) :
    s.OnlyStamps (s.modifyFunction id (·.stamped name)) :=
  { refl s with
    functions :=
      (refl s).functions.modify (g := fun f : Function => f.stamped name) (fun _ _ h => h) id }

theorem modifyStruct (module? : Option String) (s : Store) (id : StructId) :
    s.OnlyStamps (s.modifyStruct id fun x => { x with module? }) :=
  { refl s with
    structs :=
      (refl s).structs.modify (g := fun x : Struct => { x with module? }) (fun _ _ h => h) id }

theorem modifyEnumeration (module? : Option String) (s : Store) (id : EnumId) :
    s.OnlyStamps (s.modifyEnumeration id fun e => { e with module? }) :=
  { refl s with
    enumerations :=
      (refl s).enumerations.modify (g := fun e : Enumeration => { e with module? })
        (fun _ _ h => h) id }

theorem modifyVariable (module? : Option String) (s : Store) (id : VarId) :
    s.OnlyStamps (s.modifyVariable id fun v => { v with module? }) :=
  { refl s with
    vars :=
      (refl s).vars.modify (g := fun v : Variable => { v with module? }) (fun _ _ h => h) id }

theorem foldl {β : Type} {step : Store → β → Store} (h : ∀ s b, OnlyStamps s (step s b))
    (l : List β) (s : Store) : s.OnlyStamps (l.foldl step s) := by
  induction l generalizing s with
  | nil => exact refl s
  | cons b l ih => exact (h s b).trans (ih (step s b))

theorem restampFunctions (s : Store) (name : String) (filed : NameMap FunctionId)
    (ids : List FunctionId) : s.OnlyStamps (restampFunctions name s filed ids).2 := by
  induction ids generalizing s filed with
  | nil => exact refl s
  | cons id ids ih =>
    unfold Store.restampFunctions
    rw [stampFunction_eq]
    exact (modifyFunction s id name).trans (ih _ _)

end OnlyStamps

structure StampsIn (s : Store) (m : ModuleId) (t : Store) : Prop extends s.SameUpToStamps t where
  annots : t.annots = s.annots
  others (m' : ModuleId) : m' ≠ m → t.module? m' = s.module? m'

namespace StampsIn

theorem trans (h : s.StampsIn m t) (h' : t.StampsIn m u) : s.StampsIn m u :=
  { h.toSameUpToStamps.trans h'.toSameUpToStamps with
    annots := h'.annots.trans h.annots
    others := fun m' hm => (h'.others m' hm).trans (h.others m' hm) }

theorem modifyModule (s : Store) (m : ModuleId) (g : Module → Module) :
    s.StampsIn m (s.modifyModule m g) :=
  { SameUpToStamps.refl s with
    annots := rfl
    others := fun _ hm => Table.get?_modify_of_ne s.modules g hm }

theorem of_onlyStamps (h : s.OnlyStamps t) (m : ModuleId) : s.StampsIn m t :=
  { h with
    others := fun m' _ => by
      unfold module?
      rw [h.modules] }

theorem refile (s : Store) (m : ModuleId) (name : String) (shelf : Shelf) :
    s.StampsIn m (s.refile m name shelf) := by
  rw [refile_eq]
  exact (of_onlyStamps (.restampFunctions s name _ _) m).trans (modifyModule _ m _)

end StampsIn

/-- An annotation and what takes its place: a copy that is new in the store and carries the name of
the module. -/
def Replaces (s t : Store) (name : String) (id id' : AnnotId) : Prop :=
  s.annots.slots.size ≤ id'.index ∧
    ∀ a, s.annot? id = some a → t.annot? id' = some { a with module? := some name }

theorem restampAnnots_spec (s : Store) (name : String) (l : List (String × AnnotId)) :
    (s.restampAnnots name l).2 = { s with annots := (s.restampAnnots name l).2.annots } ∧
      (∀ id : AnnotId, id.index < s.annots.slots.size →
        (s.restampAnnots name l).2.annot? id = s.annot? id) ∧
      List.Forall₂ (fun e e' => e'.1 = e.1 ∧ s.Replaces (s.restampAnnots name l).2 name e.2 e'.2) l
        (s.restampAnnots name l).1 := by
  induction l generalizing s with
  | nil => exact ⟨rfl, fun _ _ => rfl, .nil⟩
  | cons e l ih =>
    obtain ⟨key, id⟩ := e
    obtain ⟨a, ha⟩ : ∃ a : Annot, a = { (s.annot? id).getD default with module? := some name } :=
      ⟨_, rfl⟩
    have unfolded : s.restampAnnots name ((key, id) :: l) =
        ((key, s.annots.nextId) :: ((s.addAnnot a).2.restampAnnots name l).1,
          ((s.addAnnot a).2.restampAnnots name l).2) := by
      rw [ha]
      rfl
    obtain ⟨frame, old, later⟩ := ih (s.addAnnot a).2
    rw [unfolded]
    generalize (s.addAnnot a).2.restampAnnots name l = r at frame old later
    have size : (s.addAnnot a).2.annots.slots.size = s.annots.slots.size + 1 := Array.size_push _
    have before (other : AnnotId) (h : other.index < s.annots.slots.size) :
        (s.addAnnot a).2.annot? other = s.annot? other := by
      refine Table.get?_push_of_ne _ _ ?_
      rintro rfl
      exact absurd h (Nat.lt_irrefl _)
    refine ⟨frame, fun other h => ?_, .cons ⟨rfl, le_rfl, fun b hb => ?_⟩ ?_⟩
    · rw [old other (by omega), before other h]
    · rw [old _ (by rw [size]; exact Nat.lt_succ_self _)]
      rw [hb, Option.getD_some] at ha
      exact ha ▸ Table.get?_push_nextId s.annots a
    · refine later.imp fun e e' ⟨hkey, hsize, hcopy⟩ => ⟨hkey, by omega, fun b hb => hcopy b ?_⟩
      rw [before e.2 (Table.lt_size_of_get? hb), hb]

/-- A renamed module has the structures, enumerations and globals that it had, and copies in the
place of its annotations. -/
structure Restamped (s : Store) (m : ModuleId) (x : Module) (name : String) (t : Store) :
    Prop extends s.SameUpToStamps t where
  others (m' : ModuleId) : m' ≠ m → t.module? m' = s.module? m'
  annots (id : AnnotId) : id.index < s.annots.slots.size → t.annot? id = s.annot? id
  module : ∃ functions generics annots,
    t.module? m = some { x with name, functions, generics, annots } ∧
    ∀ key, Option.Rel (s.Replaces t name) (x.annots.find? key) (annots.find? key)

theorem restamped_stampDeclarations (hx : s.module? m = some x) (hname : x.name = name) :
    s.Restamped m x name (s.stampDeclarations m name) := by
  generalize he : s.stampDeclarations m name = stamped
  unfold stampDeclarations at he
  extract_lets stamp s₁ s₂ s₃ at he
  have stamps : s.OnlyStamps s₃ :=
    (OnlyStamps.foldl (OnlyStamps.modifyStruct stamp) _ s).trans <|
      (OnlyStamps.foldl (OnlyStamps.modifyEnumeration stamp) _ s₁).trans <|
        OnlyStamps.foldl (OnlyStamps.modifyVariable stamp) _ s₂
  clear_value s₃
  have hx₃ : s₃.module? m = some x := by
    unfold module?
    rw [stamps.modules]
    exact hx
  rw [module_of hx₃] at he
  obtain ⟨frame, old, copies⟩ := restampAnnots_spec s₃ name x.annots.toList
  generalize s₃.restampAnnots name x.annots.toList = r at he frame old copies
  obtain ⟨entries, t⟩ := r
  dsimp only at he frame old copies
  have listed := NameMap.toList_ofList_of_forall₂ copies
  have hx' : t.module? m = some x := by
    rw [frame]
    exact hx₃
  rw [← he]
  have annot? (id : AnnotId) : s₃.annot? id = s.annot? id := by
    unfold Store.annot?
    rw [stamps.annots]
  unfold Replaces at copies
  simp only [annot?, stamps.annots] at old copies
  have same :
      s.SameUpToStamps (t.modifyModule m fun x => { x with annots := .ofList entries }) := by
    rw [frame]
    exact ⟨stamps.functions, stamps.structs, stamps.enumerations, stamps.vars, stamps.rewriters⟩
  refine { same with others := fun m' hm => ?_, annots := old, module := ?_ }
  · refine (Table.get?_modify_of_ne t.modules _ hm).trans ?_
    rw [frame, module?, stamps.modules]
  · refine ⟨x.functions, x.generics, .ofList entries, ?_, fun key => ?_⟩
    · rw [module?_modifyModule hx', ← hname]
    · rw [NameMap.find?, NameMap.find?, listed]
      exact lookup_of_forall₂ copies key

theorem restamped_renameModule (hx : s.module? m = some x) (name : String) :
    s.Restamped m x name (s.renameModule m name) := by
  have hx₁ := module?_modifyModule hx fun x => { x with name }
  have stamps₁ := StampsIn.modifyModule s m fun x => { x with name }
  change s.Restamped m x name ((((s.modifyModule m fun x => { x with name }).refile m name
    .functions).refile m name .generics).stampDeclarations m name)
  generalize s.modifyModule m (fun x => { x with name }) = s₁ at hx₁ stamps₁
  obtain ⟨-, functions, hx₂, -⟩ := refile_spec hx₁ name .functions
  have stamps₂ := stamps₁.trans (.refile s₁ m name .functions)
  generalize s₁.refile m name .functions = s₂ at hx₂ stamps₂
  obtain ⟨-, generics, hx₃, -⟩ := refile_spec hx₂ name .generics
  have stamps₃ := stamps₂.trans (.refile s₂ m name .generics)
  generalize s₂.refile m name .generics = s₃ at hx₃ stamps₃
  have restamped := restamped_stampDeclarations hx₃ rfl
  have annot? (id : AnnotId) : s₃.annot? id = s.annot? id := by
    unfold Store.annot?
    rw [stamps₃.annots]
  obtain ⟨functions', generics', annots, hx', copies⟩ := restamped.module
  have old := restamped.annots
  unfold Replaces at copies
  simp only [annot?, stamps₃.annots] at old copies
  exact { stamps₃.toSameUpToStamps.trans restamped.toSameUpToStamps with
    others := fun m' hm => (restamped.others m' hm).trans (stamps₃.others m' hm)
    annots := old
    module := ⟨functions', generics', annots, hx', copies⟩ }

section Ownership

variable {outside : Holdings} {id : AnnotId}

/-- An annotation is owned by functions, structures, enumerations, variables and rewriters, in whose
trees or declarations it is used, and by modules. -/
theorem mem_annots_holdings : id ∈ s.holdings.annots ↔
    (∃ i f, s.function? i = some f ∧ id ∈ f.holdings.annots) ∨
    (∃ i x, s.struct? i = some x ∧ id ∈ x.holdings.annots) ∨
    (∃ i e, s.enumeration? i = some e ∧ id ∈ e.holdings.annots) ∨
    (∃ i v, s.vars.get? i = some v ∧ id ∈ v.holdings.annots) ∨
    (∃ i x, s.module? i = some x ∧ id ∈ x.annots.values) ∨
    ∃ i r, s.rewriter? i = some r ∧ id ∈ r.holdings.annots := by
  have owners {kind : ObjectKind} {α : Type} (t : Table kind α) (f : α → Holdings) :
      id ∈ (Holdings.join (t.toList.map (f ·.2))).annots ↔
        ∃ i a, t.get? i = some a ∧ id ∈ (f a).annots := by
    simp [Holdings.mem_annots_join, Table.mem_toList]
  have none : ¬ ∃ i a, s.annots.get? i = some a ∧ id ∈ a.holdings.annots := by
    rintro ⟨i, a, -, h⟩
    exact absurd h List.not_mem_nil
  simp only [holdings, Holdings.annots_append, List.mem_append, owners, none, or_false, or_assoc]
  rfl

theorem Settled.mem_annots {a : Annot} (h : s.Settled outside) (ha : s.annot? id = some a) :
    id ∈ (outside ++ s.holdings).annots := by
  have kept : (s.annots.owned (outside ++ s.holdings).annots).count = s.annots.count := by
    have := Table.count_owned_le s.functions (outside ++ s.holdings).functions
    have := Table.count_owned_le s.structs (outside ++ s.holdings).structs
    have := Table.count_owned_le s.enumerations (outside ++ s.holdings).enumerations
    have := Table.count_owned_le s.annots (outside ++ s.holdings).annots
    have := Table.count_owned_le s.vars (outside ++ s.holdings).vars
    have := Table.count_owned_le s.modules (outside ++ s.holdings).modules
    have := Table.count_owned_le s.rewriters (outside ++ s.holdings).rewriters
    simp only [Settled, count, sweep] at h
    omega
  rw [Table.count_eq_length, Table.count_eq_length, Table.owned, Table.toList_restrict,
    List.length_filter_eq_length_iff] at kept
  have owned := kept (id, a) (Table.mem_toList.2 ha)
  rw [Marks.contains_ofList] at owned
  exact (of_decide_eq_true owned).2

theorem annot?_sweepMany (rounds : Nat) (h : s.annot? id = none) :
    (sweepMany outside rounds s).annot? id = none := by
  induction rounds generalizing s with
  | zero => exact h
  | succ rounds ih =>
    rw [sweepMany]
    split
    · exact h
    · refine ih ?_
      rw [annot?, sweep, Table.get?_owned]
      split
      · exact h
      · rfl

/-- What nothing owns is dropped. -/
theorem annot?_collect_of_unowned (h : id ∉ (outside ++ s.holdings).annots) :
    (s.collect outside).annot? id = none := by
  rw [collect, sweepMany]
  split
  · rename_i settled
    cases ha : s.annot? id with
    | none => rfl
    | some a => exact absurd (Settled.mem_annots settled ha) h
  · refine annot?_sweepMany _ ?_
    rw [annot?, sweep, Table.get?_owned, if_neg h]

/-- Nothing holds the annotation once the module lets go of its annotations. -/
def OwnedOnlyBy (s : Store) (outside : Holdings) (m : ModuleId) (id : AnnotId) : Prop :=
  id ∉ (outside ++ (s.modifyModule m fun x => { x with annots := .empty }).holdings).annots

instance : Decidable (s.OwnedOnlyBy outside m id) := inferInstanceAs (Decidable (_ ∉ _))

/-- A renaming leaves its old annotations to their other owners. -/
theorem Restamped.unowned (h : s.Restamped m x name t) (hid : s.OwnedOnlyBy outside m id)
    (old : id.index < s.annots.slots.size) : id ∉ (outside ++ t.holdings).annots := by
  unfold OwnedOnlyBy at hid
  rw [Holdings.annots_append, List.mem_append, not_or, mem_annots_holdings] at hid ⊢
  refine ⟨hid.1, fun owned => hid.2 ?_⟩
  rcases owned with ⟨i, f', hf, ho⟩ | ⟨i, x', hx, ho⟩ | ⟨i, e', he, ho⟩ | ⟨i, v', hv, ho⟩ |
    ⟨m', y, hy, ho⟩ | ⟨i, r, hr, ho⟩
  · obtain ⟨f, hf, same⟩ := h.functions.of_get? hf
    exact .inl ⟨i, f, hf, same ▸ ho⟩
  · obtain ⟨x, hx, same⟩ := h.structs.of_get? hx
    exact .inr (.inl ⟨i, x, hx, congrArg Struct.holdings same ▸ ho⟩)
  · obtain ⟨e, he, same⟩ := h.enumerations.of_get? he
    exact .inr (.inr (.inl ⟨i, e, he, congrArg Enumeration.holdings same ▸ ho⟩))
  · obtain ⟨v, hv, same⟩ := h.vars.of_get? hv
    exact .inr (.inr (.inr (.inl ⟨i, v, hv, same ▸ ho⟩)))
  · by_cases here : m' = m
    · subst here
      obtain ⟨functions, generics, annots, hy', copies⟩ := h.module
      rw [hy] at hy'
      cases hy'
      obtain ⟨key, hkey⟩ := NameMap.mem_values.1 ho
      have copied := copies key
      rw [hkey] at copied
      generalize x.annots.find? key = replaced at copied
      cases copied with
      | some copied => exact absurd copied.1 (Nat.not_le.2 old)
    · refine .inr (.inr (.inr (.inr (.inl ⟨m', y, ?_, ho⟩))))
      rw [h.others m' here] at hy
      exact (Table.get?_modify_of_ne s.modules _ here).trans hy
  · rw [rewriter?, h.rewriters] at hr
    exact .inr (.inr (.inr (.inr (.inr ⟨i, r, hr, ho⟩))))

theorem partOf_annots_collect (s : Store) (outside : Holdings) :
    (s.collect outside).annots.PartOf s.annots := by
  refine collect_induction (Q := fun t => t.annots.PartOf s.annots) (fun _ _ h => h) ?_
  exact fun t ht id a h => ht id a (Table.partOf_owned _ _ id a h)

end Ownership

/-- A type whose link to an annotation leads nowhere. -/
theorem handle_of_dead {id : AnnotId} (h : s.annot? id = none) :
    s.typeSize (.handle id) = .ok 0 ∧ s.typeAlign (.handle id) = .ok 1 ∧
      s.typeCopy .pod (.handle id) = .ok false ∧ s.typeText (.handle id) = "handle" := by
  have link : (Ty.handle id).annot?.bind s.annot? = none := h
  refine ⟨?_, ?_, ?_, ?_⟩
  · rw [typeSize, sizeWith_eq, elementSizeWith, annotMeasure, link]
    rfl
  · rw [typeAlign, alignWith_eq, annotMeasure, link]
    rfl
  · rw [typeCopy, copyWith_eq, annotMeasure, link]
    rfl
  · rw [typeText_eq]
    unfold typeTextWith
    rw [link]
    rfl

/-- As many of the declarations that a type is linked to are in one store as in the other. -/
structure LinksLast (s t : Store) (u : Ty) : Prop where
  struct (id : StructId) : u.struct? = some id → t.structs.isAlive id = s.structs.isAlive id
  enumeration (id : EnumId) : u.enum? = some id →
    t.enumerations.isAlive id = s.enumerations.isAlive id
  annot (id : AnnotId) : u.annot? = some id → t.annots.isAlive id = s.annots.isAlive id

theorem Restamped.sameBehind {outside : Holdings} (h : s.Restamped m x name t)
    {v : Ty} (hv : s.LinksLast (t.collect outside) v) : s.SameBehind (t.collect outside) v := by
  have part := partOf_collect t outside
  refine ⟨fun id hid => ?_, fun id hid => ?_, fun id hid => ?_⟩
  · refine Table.map_get?_of_partOf part.structs (hv.struct id hid) fun a ha => ?_
    rw [h.structs.map_get? (fun _ _ same => same), ha, Option.map_some]
  · refine Table.map_get?_of_partOf part.enumerations (hv.enumeration id hid) fun a ha => ?_
    rw [h.enumerations.map_get? (fun _ _ same => same), ha, Option.map_some]
  · refine Table.map_get?_of_partOf (partOf_annots_collect t outside) (hv.annot id hid)
      fun a ha => ?_
    have old : t.annots.get? id = s.annots.get? id := h.annots id (Table.lt_size_of_get? ha)
    rw [old, ha, Option.map_some]

theorem size_structs_collect (s : Store) (outside : Holdings) :
    (s.collect outside).structs.slots.size = s.structs.slots.size := by
  refine collect_induction (Q := fun t => t.structs.slots.size = s.structs.slots.size) rfl ?_
  intro t ht
  rw [← ht]
  exact Array.size_mapIdx

inductive Link where
  | struct (id : StructId)
  | enumeration (id : EnumId)
  | annot (id : AnnotId)

namespace Link

def IsFiled (x : Module) (key : String) : Link → Prop
  | struct id => x.structs.find? key = some id
  | enumeration id => x.enumerations.find? key = some id
  | annot id => x.annots.find? key = some id

def IsAlive (s : Store) : Link → Prop
  | struct id => s.structs.isAlive id = true
  | enumeration id => s.enumerations.isAlive id = true
  | annot id => s.annots.isAlive id = true

def isAnnot : Link → Bool
  | annot _ => true
  | _ => false

end Link

section Renaming

variable {outside : Holdings} {key : String}

/-- Structures and enumerations of the module are found under their names as before. Annotations
are not: what the module has in their place is new. -/
theorem Restamped.link_iff (h : s.Restamped m x name t) (hm : m ∈ outside.modules) {link : Link}
    (filed : link.IsFiled x key) (alive : link.IsAlive s) :
    link.IsFiled ((t.collect outside).module m) key ∧ link.IsAlive (t.collect outside) ↔
      link.isAnnot = false := by
  obtain ⟨functions, generics, annots, hy, copies⟩ := h.module
  rw [module_collect hm, module_of hy]
  cases link with
  | struct id =>
    have hid : id ∈ (t.module m).structs.values := by
      rw [module_of hy]
      exact NameMap.mem_values.2 ⟨key, filed⟩
    refine iff_of_true ⟨filed, ?_⟩ rfl
    change ((t.collect outside).struct? id).isSome = true
    rw [struct?_collect hm hid]
    exact (h.structs.isAlive id).trans alive
  | enumeration id =>
    have hid : id ∈ (t.module m).enumerations.values := by
      rw [module_of hy]
      exact NameMap.mem_values.2 ⟨key, filed⟩
    refine iff_of_true ⟨filed, ?_⟩ rfl
    change ((t.collect outside).enumeration? id).isSome = true
    rw [enumeration?_collect hm hid]
    exact (h.enumerations.isAlive id).trans alive
  | annot id =>
    refine iff_of_false (fun ⟨refiled, _⟩ => ?_) nofun
    obtain ⟨a, ha⟩ := Option.isSome_iff_exists.1 alive
    have replaced := copies key
    rw [show x.annots.find? key = some id from filed,
      show annots.find? key = some id from refiled] at replaced
    cases replaced with
    | some replaced => exact absurd (Table.lt_size_of_get? ha) (Nat.not_lt.2 replaced.1)

/-- The copy of an annotation stands where the annotation stood. -/
theorem Restamped.exists_copy (h : s.Restamped m x name t) (hm : m ∈ outside.modules)
    {id : AnnotId} {a : Annot} (filed : x.annots.find? key = some id) (ha : s.annot? id = some a) :
    ∃ copy, ((t.collect outside).module m).annots.find? key = some copy ∧
      (t.collect outside).annot? copy = some { a with module? := some name } ∧
      s.annot? copy = none := by
  obtain ⟨functions, generics, annots, hy, copies⟩ := h.module
  have replaced := copies key
  rw [filed] at replaced
  generalize hcopy : annots.find? key = copy at replaced
  cases replaced with
  | @some _ copy replaced =>
    have hid : copy ∈ (t.module m).annots.values := by
      rw [module_of hy]
      exact NameMap.mem_values.2 ⟨key, hcopy⟩
    refine ⟨copy, ?_, ?_, Table.get?_eq_none_of_size_le replaced.1⟩
    · rw [module_collect hm, module_of hy]
      exact hcopy
    · rw [annot?_collect hm hid]
      exact replaced.2 a ha

/-- After a module is renamed, a link to one of its declarations leads to what the module has under
the same name exactly if it is not a link to an annotation. In the place of an annotation stands a
copy, and unless something else owns the annotation its types lose size, alignment and name. A type
that leads to no declaration that is lost keeps all of these. -/
theorem renameModule_links (hx : s.module? m = some x) (hm : m ∈ outside.modules)
    (name : String) :
    let t := (s.renameModule m name).collect outside
    (∀ (key : String) (link : Link), link.IsFiled x key → link.IsAlive s →
      (link.IsFiled (t.module m) key ∧ link.IsAlive t ↔ link.isAnnot = false)) ∧
    (∀ key id a, x.annots.find? key = some id → s.annot? id = some a →
      (∃ copy, (t.module m).annots.find? key = some copy ∧
        t.annot? copy = some { a with module? := some name } ∧ s.annot? copy = none) ∧
      (s.OwnedOnlyBy outside m id → t.annot? id = none ∧
        t.typeSize (.handle id) = .ok 0 ∧ t.typeAlign (.handle id) = .ok 1 ∧
        t.typeCopy .pod (.handle id) = .ok false ∧ t.typeText (.handle id) = "handle")) ∧
    ∀ u, (∀ v, Relation.ReflTransGen s.Leads u v → s.LinksLast t v) →
      t.typeSize u = s.typeSize u ∧ t.typeAlign u = s.typeAlign u ∧
      (∀ q, t.typeCopy q u = s.typeCopy q u) ∧ t.typeText u = s.typeText u := by
  have restamped := restamped_renameModule hx name
  generalize s.renameModule m name = r at restamped
  refine ⟨fun key link filed alive => restamped.link_iff hm filed alive,
    fun key id a filed ha => ⟨restamped.exists_copy hm filed ha, fun only => ?_⟩,
    fun u last => ?_⟩
  · have dead := annot?_collect_of_unowned (restamped.unowned only (Table.lt_size_of_get? ha))
    exact ⟨dead, handle_of_dead dead⟩
  · have stays : s.StaysFor (r.collect outside) u := fun v hv => restamped.sameBehind (last v hv)
    have hsize : (r.collect outside).structs.slots.size = s.structs.slots.size :=
      (size_structs_collect r outside).trans restamped.structs.1
    exact ⟨stays.typeSize hsize, stays.typeAlign hsize, stays.typeCopy hsize, stays.typeText⟩

/-- A module `old` with a structure `P` and a native type `h` of sixteen bytes, and a structure `S`
that is kept elsewhere and has a field of the type `h`. -/
def ofHandle : Store where
  structs := ⟨#[
    some { name := "P", fields := [{ name := "x", type := .ofBase .int }], module? := some "old" },
    some { name := "S", fields := [{ name := "x", type := .handle ⟨0⟩ }] }]⟩
  annots := ⟨#[some { name := "h", kind := .handled 16 8 true false, module? := some "old" }]⟩
  modules := ⟨#[some { name := "old", structs := .ofList [("P", ⟨0⟩)], structOrder := [⟨0⟩],
                       annots := .ofList [("h", ⟨0⟩)] }]⟩

def besideHandle : Holdings := { modules := [⟨0⟩], structs := [⟨1⟩] }

/-- A type of the module `old` that leads to no annotation. -/
theorem linksLast_ofHandle {v : Ty} (hv : Relation.ReflTransGen ofHandle.Leads (.struct ⟨0⟩) v) :
    ofHandle.LinksLast ((ofHandle.renameModule ⟨0⟩ "new").collect besideHandle) v := by
  have plain : v = .struct ⟨0⟩ ∨ v = .ofBase .int := by
    induction hv with
    | refl => exact .inl rfl
    | tail _ leads ih =>
      rcases ih with rfl | rfl
      · cases leads with
        | nested h => cases h
        | struct h =>
          cases h
          exact .inl rfl
        | bound h => cases h
        | field hx hf =>
          cases hx
          cases List.mem_singleton.1 hf
          exact .inr rfl
        | parent hx hup =>
          cases hx
          cases hup
      · cases leads with
        | nested h => cases h
        | struct h => cases h
        | bound h => cases h
  rcases plain with rfl | rfl
  · refine ⟨fun id hid => ?_, nofun, nofun⟩
    cases hid
    decide +kernel
  · exact ⟨nofun, nofun, nofun⟩

theorem renameModule_links_ofHandle :
    let t := (ofHandle.renameModule ⟨0⟩ "new").collect besideHandle
    ((t.module ⟨0⟩).structs.find? "P" = some ⟨0⟩ ∧ t.structs.isAlive ⟨0⟩ = true) ∧
      t.typeSize (.struct ⟨0⟩) = ofHandle.typeSize (.struct ⟨0⟩) ∧
      ofHandle.OwnedOnlyBy besideHandle ⟨0⟩ ⟨0⟩ ∧ t.typeSize (.handle ⟨0⟩) = .ok 0 := by
  have hx : ofHandle.module? ⟨0⟩ = some (ofHandle.module ⟨0⟩) := rfl
  have only : ofHandle.OwnedOnlyBy besideHandle ⟨0⟩ ⟨0⟩ := by decide +kernel
  have hm : ⟨0⟩ ∈ besideHandle.modules := List.mem_singleton_self _
  obtain ⟨links, handles, types⟩ := renameModule_links hx hm "new"
  refine ⟨(links "P" (.struct ⟨0⟩) ?_ ?_).2 rfl, (types _ fun _ => linksLast_ofHandle).1, only,
    ((handles "h" ⟨0⟩ _ ?_ rfl).2 only).2.1⟩
  · exact (by decide +kernel : (ofHandle.module ⟨0⟩).structs.find? "P" = some ⟨0⟩)
  · exact (by decide +kernel : ofHandle.structs.isAlive ⟨0⟩ = true)
  · decide +kernel

/-- The structure `S` has sixteen bytes aligned to eight and is plain data, until the module is
renamed. -/
theorem renameModule_breaks_handle :
    let s := ofHandle
    let t := (s.renameModule ⟨0⟩ "new").collect besideHandle
    (s.module ⟨0⟩).annots.find? "h" = some ⟨0⟩ ∧ s.annots.isAlive ⟨0⟩ = true ∧
    s.OwnedOnlyBy besideHandle ⟨0⟩ ⟨0⟩ ∧
    ¬ ((t.module ⟨0⟩).annots.find? "h" = some ⟨0⟩ ∧ t.annots.isAlive ⟨0⟩ = true) ∧
    (s.typeSize (.struct ⟨1⟩) = .ok 16 ∧ t.typeSize (.struct ⟨1⟩) = .ok 0) ∧
    (s.typeAlign (.struct ⟨1⟩) = .ok 8 ∧ t.typeAlign (.struct ⟨1⟩) = .ok 1) ∧
    (s.typeCopy .pod (.struct ⟨1⟩) = .ok true ∧ t.typeCopy .pod (.struct ⟨1⟩) = .ok false) ∧
    s.typeText (.handle ⟨0⟩) = "h" ∧ t.typeText (.handle ⟨0⟩) = "handle" := by
  decide +kernel

end Renaming

end Store

end Frontend
