import Frontend.Proofs.Ownership
import Frontend.Proofs.Registration.Names
import Frontend.Store.Registry

/-!
# Where a module files its functions

A module has two shelves of overloads, its functions and its generics. To register a function stamps
it and files it under the name that it has from then on, unless the name is taken. A renaming files
every function anew, under its signature of that moment: the declarations that signatures read are
stamped only afterwards.
-/

namespace Frontend

theorem NameMap.mem_values {α : Type} {m : NameMap α} {a : α} :
    a ∈ m.values ↔ ∃ name, m.find? name = some a := by
  unfold NameMap.values
  rw [List.mem_map]
  constructor
  · rintro ⟨⟨name, b⟩, he, rfl⟩
    exact ⟨name, NameMap.mem_toList.1 he⟩
  · rintro ⟨name, h⟩
    exact ⟨(name, a), NameMap.mem_toList.2 h, rfl⟩

theorem NameMap.mem_values_insert {α : Type} {m : NameMap α} {name : String} {a b : α}
    (h : a ∈ (m.insert name b).values) : a = b ∨ a ∈ m.values := by
  obtain ⟨other, h⟩ := NameMap.mem_values.1 h
  by_cases same : other = name
  · rw [same, NameMap.find?_insert_self] at h
    exact .inl (Option.some.inj h).symm
  · rw [NameMap.find?_insert_of_ne m b same] at h
    exact .inr (NameMap.mem_values.2 ⟨other, h⟩)

theorem NameMap.find?_insert_of_free {α : Type} {m : NameMap α} {name key : String} {a b : α}
    (free : m.find? name = none) (h : a ≠ b) :
    (m.insert name b).find? key = some a ↔ m.find? key = some a := by
  by_cases same : key = name
  · rw [same, NameMap.find?_insert_self, free]
    simp [Ne.symm h]
  · rw [NameMap.find?_insert_of_ne m b same]

inductive Shelf where
  | functions
  | generics
  deriving DecidableEq, Repr

def Shelf.of : Shelf → Module → NameMap FunctionId
  | functions, x => x.functions
  | generics, x => x.generics

def Shelf.put : Shelf → NameMap FunctionId → Module → Module
  | functions, filed, x => { x with functions := filed }
  | generics, filed, x => { x with generics := filed }

namespace Shelf

variable {shelf other : Shelf} {filed : NameMap FunctionId} {x : Module}

@[simp] theorem of_put_self : shelf.of (shelf.put filed x) = filed := by cases shelf <;> rfl

theorem of_put_of_ne (h : other ≠ shelf) : other.of (shelf.put filed x) = other.of x := by
  cases shelf <;> cases other <;> first | rfl | exact absurd rfl h

@[simp] theorem name_put : (shelf.put filed x).name = x.name := by cases shelf <;> rfl

theorem mem_values_of_put {name : String} {id id' : FunctionId} (new : id' ≠ id)
    (h : id' ∈ (other.of (shelf.put ((shelf.of x).insert name id) x)).values) :
    id' ∈ (other.of x).values := by
  by_cases here : other = shelf
  · subst here
    rw [of_put_self] at h
    exact (NameMap.mem_values_insert h).resolve_left new
  · rwa [of_put_of_ne here] at h

end Shelf

def Function.stamped (f : Function) (module : String) : Function :=
  { f with module? := some module }

namespace Store

variable {s t : Store} {m : ModuleId} {id other : FunctionId} {f : Function} {x : Module}
  {shelf : Shelf} {module key : String} {p : Ty → Bool}

def registerOn (s : Store) : Shelf → ModuleId → FunctionId → Bool × Store
  | .functions => s.registerFunction
  | .generics => s.registerGeneric

theorem signature_stamped : s.signature (f.stamped module) = s.signature f := rfl

theorem mangledFunction_stamped :
    s.mangledFunction (f.stamped module) = modulePrefix (some module) ++ s.signature f :=
  mangledFunction_eq s _

theorem function?_modifyFunction (g : Function → Function) :
    (s.modifyFunction id g).function? other =
      if other = id then (s.function? other).map g else s.function? other :=
  Table.get?_modify s.functions id other g

theorem sameDeclarations_modifyFunction (g : Function → Function) :
    s.SameDeclarations (s.modifyFunction id g) := ⟨rfl, rfl, rfl, rfl⟩

theorem sameDeclarations_modifyModule (g : Module → Module) :
    s.SameDeclarations (s.modifyModule m g) := ⟨rfl, rfl, rfl, rfl⟩

def nameIn (s : Store) (module : String) (id : FunctionId) : String :=
  ((s.function? id).map fun f => modulePrefix (some module) ++ s.signature f).getD ""

theorem nameIn_of (hf : s.function? id = some f) :
    s.nameIn module id = modulePrefix (some module) ++ s.signature f := by
  rw [nameIn, hf, Option.map_some, Option.getD_some]

theorem stampFunction_eq :
    s.stampFunction module id = (s.nameIn module id, s.modifyFunction id (·.stamped module)) := by
  have hd : s.SameDeclarations (s.modifyFunction id (·.stamped module)) :=
    sameDeclarations_modifyFunction _
  have hid : (s.modifyFunction id (·.stamped module)).function? id =
      (s.function? id).map (·.stamped module) := by
    rw [function?_modifyFunction, if_pos rfl]
  refine Prod.ext ?_ rfl
  change (((s.modifyFunction id (·.stamped module)).function? id).map
    (s.modifyFunction id (·.stamped module)).mangledFunction).getD "" = s.nameIn module id
  rw [hid, nameIn]
  cases s.function? id with
  | none => rfl
  | some f =>
    simp only [Option.map_some, Option.getD_some]
    rw [mangledFunction_stamped, hd.signature]

private theorem registerOn_eq (hx : s.module m = x) :
    s.registerOn shelf m id =
      if (shelf.of x).contains (s.nameIn x.name id) then
        (false, s.modifyFunction id (·.stamped x.name))
      else
        (true, (s.modifyFunction id (·.stamped x.name)).modifyModule m fun x' =>
          shelf.put ((shelf.of x').insert (s.nameIn x.name id) id) x') := by
  subst hx
  cases shelf with
  | functions =>
    change s.registerFunction m id = _
    unfold registerFunction
    rw [stampFunction_eq]
    rfl
  | generics =>
    change s.registerGeneric m id = _
    unfold registerGeneric
    rw [stampFunction_eq]
    rfl

/-- Where its name is taken a function is refused, and stamped all the same. -/
theorem registerOn_of_taken (hx : s.module m = x) {other : FunctionId}
    (h : (shelf.of x).find? (s.nameIn x.name id) = some other) :
    s.registerOn shelf m id = (false, s.modifyFunction id (·.stamped x.name)) := by
  rw [registerOn_eq hx, if_pos]
  rw [NameMap.contains, h, Option.isSome_some]

theorem registerOn_of_free (hx : s.module m = x)
    (h : (shelf.of x).find? (s.nameIn x.name id) = none) :
    s.registerOn shelf m id =
      (true, (s.modifyFunction id (·.stamped x.name)).modifyModule m fun x' =>
        shelf.put ((shelf.of x').insert (s.nameIn x.name id) id) x') := by
  rw [registerOn_eq hx, if_neg]
  rw [NameMap.contains, h, Option.isSome_none]
  exact Bool.false_ne_true

/-- The functions among `ids` are stamped, and no other nor anything that names read. -/
structure Stamps (s : Store) (module : String) (ids : List FunctionId) (t : Store) : Prop where
  declarations : s.SameDeclarations t
  function? (id : FunctionId) : t.function? id =
    if id ∈ ids then (s.function? id).map (·.stamped module) else s.function? id

namespace Stamps

variable {ids : List FunctionId}

theorem nil (s : Store) (module : String) : s.Stamps module [] s :=
  ⟨.refl s, fun _ => (if_neg List.not_mem_nil).symm⟩

theorem one (s : Store) (module : String) (id : FunctionId) :
    s.Stamps module [id] (s.modifyFunction id (·.stamped module)) where
  declarations := sameDeclarations_modifyFunction _
  function? other := by
    rw [function?_modifyFunction]
    simp only [List.mem_singleton]

theorem append {ids' : List FunctionId} {u : Store} (h : s.Stamps module ids t)
    (h' : t.Stamps module ids' u) : s.Stamps module (ids ++ ids') u where
  declarations := h.declarations.trans h'.declarations
  function? id := by
    rw [h'.function?, h.function?]
    by_cases first : id ∈ ids
    · rw [if_pos first, if_pos (List.mem_append_left _ first)]
      split
      · rw [Option.map_map]
        rfl
      · rfl
    · rw [if_neg first]
      by_cases later : id ∈ ids'
      · rw [if_pos later, if_pos (List.mem_append_right _ later)]
      · rw [if_neg later, if_neg (by simp [first, later])]

theorem nameIn (h : s.Stamps module ids t) : t.nameIn key id = s.nameIn key id := by
  unfold Store.nameIn
  rw [h.function?]
  split <;> cases s.function? id <;> simp [h.declarations.signature, signature_stamped]

end Stamps

theorem stamps_registerOn (s : Store) (shelf : Shelf) (m : ModuleId) (id : FunctionId) :
    s.Stamps (s.module m).name [id] (s.registerOn shelf m id).2 := by
  have one := Stamps.one s (s.module m).name id
  rw [registerOn_eq rfl]
  split
  · exact one
  · exact ⟨one.declarations.trans (sameDeclarations_modifyModule _), one.function?⟩

/-- A new filing stamps the functions and puts each under the name that it has from then on. -/
theorem restampFunctions_spec (module : String) (s : Store) (filed : NameMap FunctionId)
    (ids : List FunctionId) :
    s.Stamps module ids (restampFunctions module s filed ids).2 ∧
      (restampFunctions module s filed ids).2.modules = s.modules ∧
      ∀ key id, (restampFunctions module s filed ids).1.find? key = some id →
        filed.find? key = some id ∨ id ∈ ids ∧ key = s.nameIn module id := by
  induction ids generalizing s filed with
  | nil => exact ⟨.nil s module, rfl, fun _ _ h => .inl h⟩
  | cons first ids ih =>
    unfold restampFunctions
    rw [stampFunction_eq]
    obtain ⟨hs, hm, hfind⟩ := ih (s.modifyFunction first (·.stamped module))
      (filed.insert (s.nameIn module first) first)
    have one : s.Stamps module [first] (s.modifyFunction first (·.stamped module)) :=
      .one s module first
    refine ⟨one.append hs, hm, fun key id h => ?_⟩
    rcases hfind key id h with h | ⟨hid, hkey⟩
    · by_cases same : key = s.nameIn module first
      · rw [same, NameMap.find?_insert_self] at h
        cases h
        exact .inr ⟨.head _, same⟩
      · rw [NameMap.find?_insert_of_ne _ _ same] at h
        exact .inl h
    · exact .inr ⟨.tail _ hid, hkey.trans one.nameIn⟩

theorem module?_modifyModule (hx : s.module? m = some x) (g : Module → Module) :
    (s.modifyModule m g).module? m = some (g x) := by
  unfold module? at hx ⊢
  rw [modifyModule, Table.get?_modify_self, hx, Option.map_some]

theorem module_of (hx : s.module? m = some x) : s.module m = x := by
  rw [module, hx, Option.getD_some]

def refile (s : Store) (m : ModuleId) (module : String) : Shelf → Store
  | .functions => s.refileFunctions m module
  | .generics => s.refileGenerics m module

theorem refile_eq (s : Store) (m : ModuleId) (module : String) (shelf : Shelf) :
    s.refile m module shelf =
      let r := restampFunctions module s .empty (shelf.of (s.module m)).values
      r.2.modifyModule m (shelf.put r.1) := by
  cases shelf <;> rfl

/-- A shelf that is filed anew holds functions that it held, each under its name in the module. -/
theorem refile_spec (hx : s.module? m = some x) (module : String) (shelf : Shelf) :
    s.Stamps module (shelf.of x).values (s.refile m module shelf) ∧
      ∃ filed, (s.refile m module shelf).module? m = some (shelf.put filed x) ∧
        ∀ key id, filed.find? key = some id →
          id ∈ (shelf.of x).values ∧ key = s.nameIn module id := by
  obtain ⟨hs, hm, hfind⟩ := restampFunctions_spec module s .empty (shelf.of x).values
  rw [refile_eq, module_of hx]
  generalize restampFunctions module s .empty (shelf.of x).values = r at hs hm hfind
  have hr : r.2.module? m = some x := by
    rw [module?, hm]
    exact hx
  refine ⟨⟨hs.declarations.trans (sameDeclarations_modifyModule _), hs.function?⟩, r.1,
    module?_modifyModule hr _, fun key id h => ?_⟩
  rcases hfind key id h with h | h
  · rw [NameMap.find?_empty] at h
    cases h
  · exact h

structure SameShelves (s t : Store) : Prop where
  functions : t.functions = s.functions
  modules : t.modules = s.modules
  type (a : VarId) : (t.var a).type = (s.var a).type

theorem SameShelves.refl (s : Store) : s.SameShelves s := ⟨rfl, rfl, fun _ => rfl⟩

theorem SameShelves.trans {u : Store} (h : s.SameShelves t) (h' : t.SameShelves u) :
    s.SameShelves u :=
  ⟨h'.functions.trans h.functions, h'.modules.trans h.modules,
    fun a => (h'.type a).trans (h.type a)⟩

theorem sameShelves_modifyVariable {a : VarId} {g : Variable → Variable}
    (hg : ∀ v, (g v).type = v.type) : s.SameShelves (s.modifyVariable a g) := by
  refine ⟨rfl, rfl, fun b => ?_⟩
  simp only [var, modifyVariable, Table.get?_modify]
  split
  · cases s.vars.get? b with
    | none => rfl
    | some v => exact hg v
  · rfl

private theorem sameShelves_foldl {β : Type} {step : Store → β → Store}
    (h : ∀ (s : Store) b, s.SameShelves (step s b)) (l : List β) (s : Store) :
    s.SameShelves (l.foldl step s) := by
  induction l generalizing s with
  | nil => exact .refl s
  | cons b l ih => exact (h s b).trans (ih (step s b))

private theorem sameShelves_restampAnnots (module : String) (l : List (String × AnnotId))
    (s : Store) : s.SameShelves (s.restampAnnots module l).2 := by
  induction l generalizing s with
  | nil => exact .refl s
  | cons e l ih =>
    obtain ⟨key, id⟩ := e
    have step (a : Annot) : s.SameShelves (s.addAnnot a).2 := ⟨rfl, rfl, fun _ => rfl⟩
    exact (step _).trans
      (ih (s.addAnnot { (s.annot? id).getD default with module? := some module }).2)

/-- When the other declarations are stamped, only the annotations of the module change in it. -/
theorem stampDeclarations_eq (s : Store) (m : ModuleId) (module : String) :
    ∃ t annots, s.SameShelves t ∧
      s.stampDeclarations m module = t.modifyModule m fun x => { x with annots } := by
  generalize he : s.stampDeclarations m module = stamped
  unfold stampDeclarations at he
  extract_lets stamp s₁ s₂ s₃ at he
  have h₁ : s.SameShelves s₁ := sameShelves_foldl (by intros; exact ⟨rfl, rfl, fun _ => rfl⟩) _ s
  have h₂ : s₁.SameShelves s₂ := sameShelves_foldl (by intros; exact ⟨rfl, rfl, fun _ => rfl⟩) _ s₁
  have h₃ : s₂.SameShelves s₃ :=
    sameShelves_foldl (by intros; exact sameShelves_modifyVariable fun _ => rfl) _ s₂
  exact ⟨_, _, ((h₁.trans h₂).trans h₃).trans (sameShelves_restampAnnots module _ s₃), he.symm⟩

theorem function?_stampDeclarations :
    (s.stampDeclarations m module).function? id = s.function? id := by
  obtain ⟨t, annots, ht, he⟩ := stampDeclarations_eq s m module
  rw [he, function?, modifyModule, ht.functions]
  rfl

theorem module?_stampDeclarations (hx : s.module? m = some x) (module : String) :
    ∃ annots, (s.stampDeclarations m module).module? m = some { x with annots } := by
  obtain ⟨t, annots, ht, he⟩ := stampDeclarations_eq s m module
  have hx : t.module? m = some x := by
    rw [module?, ht.modules]
    exact hx
  exact ⟨annots, by rw [he, module?_modifyModule hx]⟩

theorem type_stampDeclarations (s : Store) (m : ModuleId) (module : String) (a : VarId) :
    ((s.stampDeclarations m module).var a).type = (s.var a).type := by
  obtain ⟨t, annots, ht, he⟩ := stampDeclarations_eq s m module
  rw [he]
  exact ht.type a

/-- A renamed module holds its functions under their names in it. The names are those of the moment
before the renaming, and the stamps are new. -/
structure Renamed (s : Store) (m : ModuleId) (x : Module) (name : String) (t : Store) : Prop where
  module? : ∃ y, t.module? m = some y ∧ y.name = name ∧ ∀ shelf : Shelf, ∀ key id,
    (shelf.of y).find? key = some id → id ∈ (shelf.of x).values ∧ key = s.nameIn name id
  function? (id : FunctionId) : t.function? id =
    if id ∈ x.functions.values ++ x.generics.values then (s.function? id).map (·.stamped name)
    else s.function? id
  type (a : VarId) : (t.var a).type = (s.var a).type

theorem renamed_renameModule (hx : s.module? m = some x) (name : String) :
    s.Renamed m x name (s.renameModule m name) := by
  have start : s.Stamps name [] (s.modifyModule m fun x => { x with name }) :=
    ⟨sameDeclarations_modifyModule _, fun _ => (if_neg List.not_mem_nil).symm⟩
  have hx₁ := module?_modifyModule hx fun x => { x with name }
  change s.Renamed m x name ((((s.modifyModule m fun x => { x with name }).refile m name
    .functions).refile m name .generics).stampDeclarations m name)
  generalize s.modifyModule m (fun x => { x with name }) = s₁ at start hx₁
  obtain ⟨hfun, functions, hx₂, hfunctions⟩ := refile_spec hx₁ name .functions
  generalize s₁.refile m name .functions = s₂ at hfun hx₂
  obtain ⟨hgen, generics, hx₃, hgenerics⟩ := refile_spec hx₂ name .generics
  generalize s₂.refile m name .generics = s₃ at hgen hx₃
  obtain ⟨annots, hx₄⟩ := module?_stampDeclarations hx₃ name
  have hall := (start.append hfun).append hgen
  refine ⟨⟨_, hx₄, rfl, fun shelf key id h => ?_⟩, fun id => ?_, fun a => ?_⟩
  · cases shelf with
    | functions =>
      obtain ⟨hid, hkey⟩ := hfunctions key id h
      exact ⟨hid, hkey.trans start.nameIn⟩
    | generics =>
      obtain ⟨hid, hkey⟩ := hgenerics key id h
      exact ⟨hid, hkey.trans (hfun.nameIn.trans start.nameIn)⟩
  · rw [function?_stampDeclarations, hall.function?]
    rfl
  · rw [type_stampDeclarations, var, hall.declarations.vars]
    rfl

/-- A link to another object does not see the change of an object. -/
theorem bind_modify {kind : ObjectKind} {α : Type} {link : Option (Id kind)} {i : Id kind}
    (h : (link == some i) = false) (objects : Table kind α) (g : α → α) :
    link.bind (objects.modify i g).get? = link.bind objects.get? := by
  cases link with
  | none => rfl
  | some j =>
    have hj : j ≠ i := fun same => by simp [same] at h
    exact Table.get?_modify_of_ne objects g hj

theorem bind_push {kind : ObjectKind} {α : Type} {link : Option (Id kind)}
    {objects : Table kind α} (h : (link == some objects.nextId) = false) (a : α) :
    link.bind (objects.push a).get? = link.bind objects.get? := by
  cases link with
  | none => rfl
  | some j =>
    have hj : j ≠ objects.nextId := fun same => by simp [same] at h
    exact Table.get?_push_of_ne objects a hj

/-- A declaration is added to a module, and only types that `p` tells have another text after. -/
structure Declares (s : Store) (m : ModuleId) (p : Ty → Bool) (t : Store) : Prop where
  functions : t.functions = s.functions
  vars : t.vars = s.vars
  mangledBase (u : Ty) : p u = false → t.mangledBase u = s.mangledBase u
  module? (x : Module) : s.module? m = some x →
    ∃ y, t.module? m = some y ∧ y.name = x.name ∧ ∀ shelf : Shelf, shelf.of y = shelf.of x

theorem Declares.type (h : s.Declares m p t) (a : VarId) : (t.var a).type = (s.var a).type := by
  rw [var, var, h.vars]

theorem registerStruct_spec (s : Store) (m : ModuleId) (id : StructId) :
    s.registerStruct m id = (false, s) ∨
      ∃ t, s.registerStruct m id = (true, t) ∧ s.Declares m (·.struct? == some id) t := by
  unfold registerStruct
  dsimp only
  split
  · exact .inl rfl
  · refine .inr ⟨_, rfl, rfl, rfl, fun u hu => ?_, fun x hx =>
      ⟨_, module?_modifyModule hx _, rfl, fun shelf => by cases shelf <;> rfl⟩⟩
    exact mangledBase_congr (bind_modify hu s.structs _) rfl rfl

theorem registerEnumeration_spec (s : Store) (m : ModuleId) (id : EnumId) :
    s.registerEnumeration m id = (false, s) ∨
      ∃ t, s.registerEnumeration m id = (true, t) ∧ s.Declares m (·.enum? == some id) t := by
  unfold registerEnumeration
  dsimp only
  split
  · exact .inl rfl
  · refine .inr ⟨_, rfl, rfl, rfl, fun u hu => ?_, fun x hx =>
      ⟨_, module?_modifyModule hx _, rfl, fun shelf => by cases shelf <;> rfl⟩⟩
    exact mangledBase_congr rfl (bind_modify hu s.enumerations _) rfl

theorem registerAnnot_spec (s : Store) (m : ModuleId) (a : Annot) :
    s.registerAnnot m a = (false, s) ∨
      ∃ t, s.registerAnnot m a = (true, t) ∧
        s.Declares m (·.annot? == some s.annots.nextId) t := by
  unfold registerAnnot
  dsimp only
  split
  · exact .inl rfl
  · refine .inr ⟨_, rfl, rfl, rfl, fun u hu => ?_, fun x hx =>
      ⟨_, module?_modifyModule hx _, rfl, fun shelf => by cases shelf <;> rfl⟩⟩
    exact mangledBase_congr rfl rfl (bind_push hu _)

end Store

end Frontend
