import Mathlib.Data.List.Induction
import Mathlib.Data.List.Nodup
import Frontend.Proofs.Registration.Keeping

/-!
# Modules of one name

A module is added under a name that no module of the program has, but the program's own module is
renamed without a look at the others. So the other modules always have distinct names, and the names
of all modules are distinct exactly when the last renaming took a name that no other module had. A
qualified name is looked up in the first module of its qualifier; a module behind it is shadowed.
-/

namespace Frontend

namespace Store

variable {s : Store} {m other : ModuleId} {name : String}

theorem module?_refile_of_ne (h : other ≠ m) (name : String) (shelf : Shelf) :
    (s.refile m name shelf).module? other = s.module? other := by
  have kept := (restampFunctions_spec name s .empty (shelf.of (s.module m)).values).2.1
  rw [refile_eq]
  simp only [module?, modifyModule, Table.get?_modify_of_ne _ _ h, kept]

/-- The renaming of a module leaves the other modules alone. -/
theorem module?_renameModule_of_ne (h : other ≠ m) (name : String) :
    (s.renameModule m name).module? other = s.module? other := by
  have named : (s.modifyModule m fun x => { x with name }).module? other = s.module? other :=
    Table.get?_modify_of_ne _ _ h
  change ((((s.modifyModule m fun x => { x with name }).refile m name .functions).refile m name
    .generics).stampDeclarations m name).module? other = _
  obtain ⟨t, annots, ht, he⟩ := stampDeclarations_eq
    (((s.modifyModule m fun x => { x with name }).refile m name .functions).refile m name .generics)
    m name
  rw [he, module?, modifyModule, Table.get?_modify_of_ne _ _ h, ht.modules, ← module?,
    module?_refile_of_ne h, module?_refile_of_ne h, named]

theorem name_renameModule_self (h : (s.module? m).isSome = true) :
    ((s.renameModule m name).module m).name = name := by
  obtain ⟨x, hx⟩ := Option.isSome_iff_exists.1 h
  obtain ⟨y, hy, hname, -⟩ := (renamed_renameModule hx name).module?
  rw [module_of hy, hname]

theorem isSome_renameModule (h : (s.module? other).isSome = true) :
    ((s.renameModule m name).module? other).isSome = true := by
  by_cases same : other = m
  · subst same
    obtain ⟨x, hx⟩ := Option.isSome_iff_exists.1 h
    obtain ⟨y, hy, -⟩ := (renamed_renameModule hx name).module?
    rw [hy, Option.isSome_some]
  · rwa [module?_renameModule_of_ne same]

/-- A qualified name is looked up in the first module of the qualifier. -/
theorem lookupIn_qualified {α : Type} (find : Module → String → List α) {library : Library}
    {context : Option ModuleId} {first : ModuleId} {qualifier plain : String}
    (hfirst : s.findModule? library qualifier = some first)
    (hplain : (splitName (":" ++ plain)).1 = none)
    (hcontext : qualifier ≠ "" ∨ context = none ∨ context = some first) :
    s.lookupIn library context (qualifier ++ "::" ++ plain) find = find (s.module first) plain := by
  unfold lookupIn
  rw [splitName_qualified qualifier hplain]
  simp only [hfirst, Option.map_some, Option.getD_some]
  cases context with
  | none => rfl
  | some c =>
    simp only [String.isEmpty_iff, ite_eq_right_iff]
    intro empty
    obtain rfl : c = first := by simpa [empty] using hcontext
    rfl

end Store

/-- A call that changes which modules a program sees, or under which names. -/
inductive ModuleCall where
  /-- Makes a module visible unless its name is taken. -/
  | add (x : Module)
  /-- Gives the program's own module a name. -/
  | rename (name : String)

namespace Program

def newOver (s : Store) (policies : Policies) : Program :=
  let (builtin, store) := s.addBuiltinModule
  let (this, store) := store.addModule { name := "" }
  { store, library := [builtin, this], this, policies }

def call (p : Program) : ModuleCall → Program
  | .add x =>
    let (m, store) := p.store.addModule x
    ({ p with store }.addModule m).2
  | .rename name => p.setModuleName name

theorem call_rename (p : Program) (name : String) :
    p.call (.rename name) = { p with store := p.store.renameModule p.this name } := rfl

def calls (p : Program) (cs : List ModuleCall) : Program := cs.foldl call p

def moduleName (p : Program) (m : ModuleId) : String := (p.store.module m).name

def moduleNames (p : Program) : List String := p.library.map p.moduleName

def otherNames (p : Program) : List String := (p.library.erase p.this).map p.moduleName

def findModule? (p : Program) (name : String) : Option ModuleId :=
  p.store.findModule? p.library name

/-- Behind the qualifier `m`, names are looked up in the module `first` only. An empty qualifier
means the module that the look-up is made from, if there is one. -/
def SearchesOnly (p : Program) (m first : ModuleId) : Prop :=
  ∀ (α : Type) (find : Module → String → List α) (context : Option ModuleId) (plain : String),
    (splitName (":" ++ plain)).1 = none →
    p.moduleName m ≠ "" ∨ context = none ∨ context = some first →
      p.store.lookupIn p.library context (p.moduleName m ++ "::" ++ plain) find =
        find (p.store.module first) plain

/-- The program sees its own module and others, all of them alive, each of them once, and the others
under distinct names. -/
structure SeesModules (p : Program) : Prop where
  this : p.this ∈ p.library
  alive : ∀ m ∈ p.library, (p.store.module? m).isSome = true
  nodup : p.library.Nodup
  others : p.otherNames.Nodup

variable {p : Program} {m : ModuleId} {x : Module} {name : String} {c : ModuleCall}
  {cs before after : List ModuleCall}

theorem calls_snoc : p.calls (cs ++ [c]) = (p.calls cs).call c := by
  rw [calls, calls, List.foldl_append, List.foldl_cons, List.foldl_nil]

theorem findModule?_isSome_iff : (p.findModule? name).isSome = true ↔ name ∈ p.moduleNames := by
  simp [findModule?, Store.findModule?, moduleNames, moduleName]

/-- The names of the modules, the program's own first. -/
theorem SeesModules.perm (h : p.SeesModules) :
    p.moduleNames.Perm (p.moduleName p.this :: p.otherNames) :=
  (List.perm_cons_erase h.this).map _

theorem SeesModules.nodup_iff (h : p.SeesModules) :
    p.moduleNames.Nodup ↔ p.moduleName p.this ∉ p.otherNames := by
  rw [h.perm.nodup_iff, List.nodup_cons, and_iff_left h.others]

section Add

def stored (p : Program) (x : Module) : Program :=
  { p with store := (p.store.addModule x).2 }

theorem call_add : p.call (.add x) = ((p.stored x).addModule p.store.modules.nextId).2 := rfl

theorem module?_stored (h : (p.store.module? m).isSome = true) :
    (p.stored x).store.module? m = p.store.module? m := by
  refine Table.get?_push_of_ne p.store.modules x fun same => ?_
  rw [same, Store.module?, Table.get?_nextId] at h
  cases h

theorem module_stored_nextId : (p.stored x).store.module p.store.modules.nextId = x :=
  Store.module_of (Table.get?_push_nextId p.store.modules x)

theorem SeesModules.moduleName_stored (h : p.SeesModules) (hm : m ∈ p.library) :
    (p.stored x).moduleName m = p.moduleName m := by
  rw [moduleName, moduleName, Store.module, Store.module, module?_stored (h.alive m hm)]

theorem SeesModules.moduleNames_stored (h : p.SeesModules) :
    (p.stored x).moduleNames = p.moduleNames :=
  List.map_congr_left fun _ hm => h.moduleName_stored hm

theorem SeesModules.otherNames_stored (h : p.SeesModules) :
    (p.stored x).otherNames = p.otherNames :=
  List.map_congr_left fun _ hm => h.moduleName_stored (List.mem_of_mem_erase hm)

theorem SeesModules.stored (h : p.SeesModules) : (p.stored x).SeesModules where
  this := h.this
  alive m hm := by
    rw [module?_stored (h.alive m hm)]
    exact h.alive m hm
  nodup := h.nodup
  others := h.otherNames_stored ▸ h.others

theorem SeesModules.nextId_not_mem (h : p.SeesModules) : p.store.modules.nextId ∉ p.library := by
  intro hm
  have := h.alive _ hm
  rw [Store.module?, Table.get?_nextId] at this
  cases this

/-- A module whose name is taken is not made visible. -/
theorem SeesModules.call_add_of_taken (h : p.SeesModules) (taken : x.name ∈ p.moduleNames) :
    p.call (.add x) = p.stored x := by
  rw [call_add, addModule, if_pos]
  rw [module_stored_nextId]
  exact findModule?_isSome_iff.2 (h.moduleNames_stored.symm ▸ taken)

/-- A module under a new name stands behind the others. -/
theorem SeesModules.call_add_of_free (h : p.SeesModules) (free : x.name ∉ p.moduleNames) :
    p.call (.add x) =
      { p.stored x with library := p.library ++ [p.store.modules.nextId] } := by
  rw [call_add, addModule, if_neg]
  · rfl
  · rw [module_stored_nextId]
    exact fun taken => free (h.moduleNames_stored ▸ findModule?_isSome_iff.1 taken)

/-- What the addition of a module does to the names of the modules. -/
theorem SeesModules.names_add (h : p.SeesModules) (x : Module) :
    (p.call (.add x)).moduleName p.this = p.moduleName p.this ∧
      (p.call (.add x)).otherNames =
        if x.name ∈ p.moduleNames then p.otherNames else p.otherNames ++ [x.name] := by
  have own := h.moduleName_stored (x := x) h.this
  split
  · rename_i taken
    rw [h.call_add_of_taken taken]
    exact ⟨own, h.otherNames_stored⟩
  · rename_i free
    rw [h.call_add_of_free free]
    refine ⟨own, ?_⟩
    have erased : (p.library ++ [p.store.modules.nextId]).erase p.this =
        p.library.erase p.this ++ [p.store.modules.nextId] := List.erase_append_left _ h.this
    have last : (p.stored x).moduleName p.store.modules.nextId = x.name :=
      congrArg Module.name module_stored_nextId
    calc ((p.library ++ [p.store.modules.nextId]).erase p.this).map (p.stored x).moduleName
      _ = (p.stored x).otherNames ++ [(p.stored x).moduleName p.store.modules.nextId] := by
        rw [erased, List.map_append, List.map_singleton]
        rfl
      _ = p.otherNames ++ [x.name] := by rw [h.otherNames_stored, last]

theorem this_call (p : Program) (c : ModuleCall) : (p.call c).this = p.this := by
  cases c with
  | add x =>
    rw [call_add, addModule]
    split <;> rfl
  | rename name => rw [call_rename]

theorem SeesModules.add (h : p.SeesModules) (x : Module) : (p.call (.add x)).SeesModules := by
  have names := (h.names_add x).2
  by_cases taken : x.name ∈ p.moduleNames
  · rw [h.call_add_of_taken taken]
    exact h.stored
  · have others : (p.call (.add x)).otherNames.Nodup := by
      rw [names, if_neg taken]
      have free : x.name ∉ p.otherNames := fun hx =>
        taken (h.perm.mem_iff.2 (List.mem_cons_of_mem _ hx))
      exact h.others.append (List.nodup_singleton _) (List.disjoint_singleton.2 free)
    rw [h.call_add_of_free taken] at others ⊢
    refine ⟨List.mem_append_left _ h.this, fun m hm => ?_, ?_, others⟩
    · rcases List.mem_append.1 hm with hm | hm
      · exact h.stored.alive m hm
      · rw [List.mem_singleton.1 hm]
        exact congrArg Option.isSome (Table.get?_push_nextId p.store.modules x)
    · exact h.nodup.append (List.nodup_singleton _) (List.disjoint_singleton.2 h.nextId_not_mem)

end Add

section Rename

theorem library_rename : (p.call (.rename name)).library = p.library := by rw [call_rename]

theorem moduleName_rename_of_ne (hm : m ≠ p.this) :
    (p.call (.rename name)).moduleName m = p.moduleName m := by
  rw [moduleName, moduleName, call_rename, Store.module, Store.module,
    Store.module?_renameModule_of_ne hm]

/-- What a renaming does to the names of the modules. -/
theorem SeesModules.names_rename (h : p.SeesModules) (name : String) :
    (p.call (.rename name)).moduleName p.this = name ∧
      (p.call (.rename name)).otherNames = p.otherNames := by
  constructor
  · rw [moduleName, call_rename]
    exact Store.name_renameModule_self (h.alive _ h.this)
  · rw [otherNames, this_call, library_rename]
    refine List.map_congr_left fun m hm => moduleName_rename_of_ne fun same => ?_
    exact h.nodup.not_mem_erase (same ▸ hm)

theorem SeesModules.rename (h : p.SeesModules) (name : String) :
    (p.call (.rename name)).SeesModules where
  this := by
    rw [call_rename]
    exact h.this
  alive m hm := by
    rw [call_rename] at hm ⊢
    exact Store.isSome_renameModule (h.alive m hm)
  nodup := by
    rw [call_rename]
    exact h.nodup
  others := by
    rw [(h.names_rename name).2]
    exact h.others

end Rename

theorem SeesModules.call (h : p.SeesModules) (c : ModuleCall) : (p.call c).SeesModules := by
  cases c with
  | add x => exact h.add x
  | rename name => exact h.rename name

theorem SeesModules.calls (h : p.SeesModules) (cs : List ModuleCall) :
    (p.calls cs).SeesModules := by
  induction cs using List.reverseRecOn with
  | nil => exact h
  | append_singleton cs c ih =>
    rw [calls_snoc]
    exact ih.call c

/-- The last renaming among the calls took a name that no other module had. -/
def RenamedApart (p : Program) (cs : List ModuleCall) : Prop :=
  ∀ before name after, cs = before ++ .rename name :: after →
    (∀ c ∈ after, ∃ x, c = .add x) → name ∉ (p.calls before).otherNames

theorem renamedApart_snoc_add : p.RenamedApart (cs ++ [.add x]) ↔ p.RenamedApart cs := by
  constructor
  · rintro h before name after rfl hafter
    refine h before name (after ++ [.add x]) (by simp) fun c hc => ?_
    rcases List.mem_append.1 hc with hc | hc
    · exact hafter c hc
    · exact ⟨x, List.mem_singleton.1 hc⟩
  · intro h before name after hcs hafter
    -- the last call is an addition, so it stands behind the renaming
    rcases List.eq_nil_or_concat' after with rfl | ⟨front, c, rfl⟩
    · have := congrArg List.getLast? hcs
      simp at this
    · have split : cs ++ [.add x] = (before ++ .rename name :: front) ++ [c] := by
        rw [hcs]
        simp
      exact h before name front (List.append_inj_left' split rfl)
        fun c' hc' => hafter c' (List.mem_append_left _ hc')

theorem renamedApart_snoc_rename :
    p.RenamedApart (cs ++ [.rename name]) ↔ name ∉ (p.calls cs).otherNames := by
  constructor
  · intro h
    exact h cs name [] rfl fun _ hc => absurd hc List.not_mem_nil
  · intro h before name' after hcs hafter
    rcases List.eq_nil_or_concat' after with rfl | ⟨front, c, rfl⟩
    · obtain ⟨rfl, hlast⟩ := List.append_inj' hcs rfl
      cases hlast
      exact h
    · have split : cs ++ [.rename name] = (before ++ .rename name' :: front) ++ [c] := by
        rw [hcs]
        simp
      have last : [ModuleCall.rename name] = [c] := List.append_inj_right' split rfl
      obtain ⟨x, hx⟩ := hafter c (List.mem_append_right _ (List.mem_singleton_self c))
      rw [hx] at last
      cases last

/-- After any calls the names of the modules are distinct if they were at the start and the last
renaming took a free name, and otherwise not. -/
theorem SeesModules.nodup_calls_iff (h : p.SeesModules) (start : p.moduleNames.Nodup)
    (cs : List ModuleCall) : (p.calls cs).moduleNames.Nodup ↔ p.RenamedApart cs := by
  induction cs using List.reverseRecOn with
  | nil =>
    refine iff_of_true start fun before name after hcs => ?_
    simp at hcs
  | append_singleton cs c ih =>
    have hq := h.calls cs
    rw [calls_snoc, (hq.call c).nodup_iff, this_call]
    cases c with
    | add x =>
      obtain ⟨own, others⟩ := hq.names_add x
      rw [renamedApart_snoc_add, ← ih, hq.nodup_iff, own, others]
      split
      · exact Iff.rfl
      · rename_i free
        have apart : (p.calls cs).moduleName (p.calls cs).this ≠ x.name := fun same =>
          free (same ▸ List.mem_map_of_mem hq.this)
        simp [apart]
    | rename name =>
      obtain ⟨own, others⟩ := hq.names_rename name
      rw [renamedApart_snoc_rename, own, others]

section Searches

/-- The names are distinct exactly if each module is the first one of its name. -/
theorem SeesModules.nodup_iff_found (h : p.SeesModules) :
    p.moduleNames.Nodup ↔ ∀ m ∈ p.library, p.findModule? (p.moduleName m) = some m := by
  rw [moduleNames, List.nodup_map_iff_inj_on h.nodup]
  constructor
  · intro inj m hm
    cases hfind : p.findModule? (p.moduleName m) with
    | none =>
      have := findModule?_isSome_iff.2 (List.mem_map_of_mem (f := p.moduleName) hm)
      rw [hfind] at this
      cases this
    | some first =>
      have same : p.moduleName first = p.moduleName m := by
        have := List.find?_some hfind
        exact beq_iff_eq.1 this
      rw [inj first (List.mem_of_find?_eq_some hfind) m hm same]
  · intro found m hm m' hm' same
    have := found m hm
    rw [same, found m' hm', Option.some.injEq] at this
    exact this.symm

/-- A module of the program's library is looked up in the first module of its name. -/
theorem exists_searchesOnly (hm : m ∈ p.library) :
    ∃ first ∈ p.library, p.findModule? (p.moduleName m) = some first ∧ p.SearchesOnly m first := by
  obtain ⟨first, hfirst⟩ := Option.isSome_iff_exists.1
    (findModule?_isSome_iff.2 (List.mem_map_of_mem (f := p.moduleName) hm))
  exact ⟨first, List.mem_of_find?_eq_some hfirst, hfirst, fun _ find _ _ hplain hcontext =>
    Store.lookupIn_qualified find hfirst hplain hcontext⟩

end Searches

section Start

private theorem keepsNames_foldl {β : Type} {step : Store → β → Store}
    (h : ∀ (s : Store) b, s.modules.Keeps Module.name (step s b).modules) (l : List β) (s : Store) :
    s.modules.Keeps Module.name (l.foldl step s).modules := by
  induction l generalizing s with
  | nil => exact .refl _ _
  | cons b l ih => exact (h s b).trans (ih (step s b))

theorem keepsNames_registerCall (s : Store) (m : ModuleId) (name : String) (f : CallFactory) :
    s.modules.Keeps Module.name (s.registerCall m name f).2.modules := by
  unfold Store.registerCall
  split
  · exact .refl _ _
  · exact .modify _ _ fun _ => rfl

theorem keepsNames_registerAnnot (s : Store) (m : ModuleId) (a : Annot) :
    s.modules.Keeps Module.name (s.registerAnnot m a).2.modules := by
  unfold Store.registerAnnot
  split
  · exact .refl _ _
  · exact .modify _ _ fun _ => rfl

/-- The builtin module keeps its name while it is filled. -/
theorem exists_builtinModule (s : Store) :
    ∃ x, s.addBuiltinModule.2.module? s.addBuiltinModule.1 = some x ∧
      x.name = builtinModuleName := by
  have calls (t : Store) (m : ModuleId) : t.modules.Keeps Module.name (builtinCalls.foldl
      (fun t c => (t.registerCall m c.1 (.looksLike c.1 c.2)).2) t).modules :=
    keepsNames_foldl (fun _ _ => keepsNames_registerCall _ _ _ _) _ _
  have annots (t : Store) (m : ModuleId) : t.modules.Keeps Module.name (builtinAnnots.foldl
      (fun t a => (t.registerAnnot m a).2) t).modules :=
    keepsNames_foldl (fun _ _ => keepsNames_registerAnnot _ _ _) _ _
  dsimp only [Store.addBuiltinModule]
  exact ((calls (s.addModule _).2 _).trans (annots _ _)) _ _ (Table.get?_push_nextId s.modules _)

/-- At the start there are the builtin module and the program's own, which has no name. -/
structure Starts (p : Program) (builtin : ModuleId) : Prop where
  library : p.library = [builtin, p.this]
  ne : builtin ≠ p.this
  builtin : ∃ x, p.store.module? builtin = some x ∧ x.name = builtinModuleName
  own : ∃ x, p.store.module? p.this = some x ∧ x.name = ""

theorem starts_newOver (s : Store) (policies : Policies) :
    (newOver s policies).Starts s.addBuiltinModule.1 := by
  obtain ⟨x, hx, hname⟩ := exists_builtinModule s
  unfold newOver
  generalize s.addBuiltinModule = builtin at hx
  have ne : builtin.1 ≠ builtin.2.modules.nextId := by
    intro same
    rw [Store.module?, same, Table.get?_nextId] at hx
    cases hx
  exact ⟨rfl, ne, ⟨x, (Table.get?_push_of_ne _ _ ne).trans hx, hname⟩,
    ⟨_, Table.get?_push_nextId _ _, rfl⟩⟩

namespace Starts

variable {builtin : ModuleId}

theorem moduleNames (h : p.Starts builtin) : p.moduleNames = [builtinModuleName, ""] := by
  obtain ⟨library, -, ⟨x, hx, hname⟩, ⟨y, hy, hown⟩⟩ := h
  rw [Program.moduleNames, library, List.map_cons, List.map_singleton, moduleName, moduleName,
    Store.module_of hx, Store.module_of hy, hname, hown]

theorem seesModules (h : p.Starts builtin) : p.SeesModules := by
  obtain ⟨library, ne, ⟨x, hx, -⟩, ⟨y, hy, -⟩⟩ := h
  refine ⟨?_, fun m hm => ?_, ?_, ?_⟩
  · rw [library]
    exact List.mem_cons_of_mem _ (List.mem_singleton_self _)
  · rw [library, List.mem_cons, List.mem_singleton] at hm
    rcases hm with rfl | rfl
    · rw [hx, Option.isSome_some]
    · rw [hy, Option.isSome_some]
  · rw [library]
    exact List.nodup_cons.2 ⟨fun hm => ne (List.mem_singleton.1 hm), List.nodup_singleton _⟩
  · rw [otherNames, library, List.erase_cons_tail (by simpa using ne), List.erase_cons_head]
    exact List.nodup_singleton _

end Starts

end Start

/-- In every state that additions and renamings lead to, the modules besides the program's own have
distinct names; the names of all modules are distinct exactly if the last renaming took a name that
no other module had; and that is to say that every module is the one found under its name. Behind a
qualifier, names are looked up in the module found under it and in no other. -/
theorem modules_unshadowed_iff (s : Store) (policies : Policies) (cs : List ModuleCall) :
    let start := newOver s policies
    let p := start.calls cs
    p.otherNames.Nodup ∧
      (p.moduleNames.Nodup ↔ start.RenamedApart cs) ∧
      (p.moduleNames.Nodup ↔ ∀ m ∈ p.library, p.findModule? (p.moduleName m) = some m) ∧
      ∀ m ∈ p.library, ∃ first ∈ p.library,
        p.findModule? (p.moduleName m) = some first ∧ p.SearchesOnly m first := by
  intro start p
  have hstart := starts_newOver s policies
  have sees : start.SeesModules := hstart.seesModules
  have distinct : start.moduleNames.Nodup := by
    rw [hstart.moduleNames]
    decide
  have hp : p.SeesModules := sees.calls cs
  exact ⟨hp.others, sees.nodup_calls_iff distinct cs, hp.nodup_iff_found,
    fun _ hm => exists_searchesOnly hm⟩

def withModuleA : Program :=
  (newOver { structs := ⟨#[some { name := "S", module? := some "a" }]⟩ } {}).call
    (.add { name := "a", structs := NameMap.empty.insert "S" ⟨0⟩, structOrder := [⟨0⟩] })

/-- The program's own module takes the name of the added one, and the structure in that is not
found any more. -/
theorem shadowed_withModuleA :
    withModuleA.moduleNames = ["$", "", "a"] ∧ withModuleA.findStructs "a::S" = [⟨0⟩] ∧
      let p := withModuleA.call (.rename "a")
      p.moduleNames = ["$", "a", "a"] ∧ ¬ p.moduleNames.Nodup ∧ p.findStructs "a::S" = [] ∧
        ∃ m ∈ p.library, p.findModule? (p.moduleName m) ≠ some m := by
  decide +kernel

end Program

end Frontend
