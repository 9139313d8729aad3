import Frontend.Optimizer.Rounds
import Frontend.Proofs.Optimizer.Reachability
import Frontend.Proofs.Optimizer.Shrinking
import Frontend.Proofs.Ownership

/-!
# The removal of unused declarations

`Program.Needed` is the least set of symbols that the entry points and the computed globals of a
module need. The removal keeps the native functions and what is needed, in the old order and under
the old keys, and changes nothing else of the module.
-/

namespace Frontend

namespace Store

variable {s s' : Store} {m : ModuleId}

structure Marked (s s' : Store) : Prop where
  functions : s.functions.Agree (fun f f' => ∃ used, f' = { f with used }) s'.functions
  structs : s'.structs = s.structs
  enumerations : s'.enumerations = s.enumerations
  annots : s'.annots = s.annots
  vars : s.vars.Agree (fun x x' => ∃ used, x' = { x with used }) s'.vars
  modules : s'.modules = s.modules
  rewriters : s'.rewriters = s.rewriters

theorem Marked.refl (s : Store) : s.Marked s where
  functions := .refl (fun f => ⟨f.used, rfl⟩) _
  structs := rfl
  enumerations := rfl
  annots := rfl
  vars := .refl (fun x => ⟨x.used, rfl⟩) _
  modules := rfl
  rewriters := rfl

theorem Marked.markUsed (h : s.Marked s') (x : Symbol) : s.Marked (s'.markUsed x) := by
  cases x with
  | function id =>
    refine { h with functions := h.functions.modify ?_ id }
    rintro f _ ⟨_, rfl⟩
    exact ⟨true, rfl⟩
  | var id =>
    refine { h with vars := h.vars.modify ?_ id }
    rintro x _ ⟨_, rfl⟩
    exact ⟨true, rfl⟩

theorem marked_foldl (used : List Symbol) (h : s.Marked s') :
    s.Marked (used.foldl Store.markUsed s') := by
  induction used generalizing s' with
  | nil => exact h
  | cons x used ih => exact ih (h.markUsed x)

/-- What marks leave alone is the same in a function, if it is there. -/
theorem Marked.map_function? {β : Type} (h : s.Marked s') {g : Function → β}
    (hg : ∀ f used, g { f with used } = g f) (id : FunctionId) :
    (s'.function? id).map g = (s.function? id).map g := by
  refine h.functions.map_get? ?_ id
  rintro f _ ⟨used, rfl⟩
  exact hg f used

theorem Marked.var_congr {β : Type} (h : s.Marked s') {g : Variable → β}
    (hg : ∀ x used, g { x with used } = g x) (id : VarId) : g (s'.var id) = g (s.var id) := by
  have := congrArg (Option.getD · (g default)) <| h.vars.map_get? (g := g) (by
    rintro x _ ⟨used, rfl⟩
    exact hg x used) id
  rwa [Option.getD_map, Option.getD_map] at this

theorem Marked.isNative (h : s.Marked s') (id : FunctionId) :
    ((s'.function? id).map (·.isBuiltin)).getD false =
      ((s.function? id).map (·.isBuiltin)).getD false := by
  rw [h.map_function? fun _ _ => rfl]

theorem Marked.var_name (h : s.Marked s') (id : VarId) : (s'.var id).name = (s.var id).name :=
  h.var_congr (g := Variable.name) (fun _ _ => rfl) id

theorem Marked.init (h : s.Marked s') (id : VarId) : (s'.var id).init = (s.var id).init :=
  h.var_congr (g := Variable.init) (fun _ _ => rfl) id

theorem Marked.module (h : s.Marked s') (m : ModuleId) : s'.module m = s.module m := by
  simp only [Store.module, module?, h.modules]

theorem foldl_unregisterFunction (entries : List (String × FunctionId)) (s : Store) (m : ModuleId) :
    entries.foldl (fun s f => s.unregisterFunction m f.1) s = s.modifyModule m fun x =>
      { x with functions := (entries.map (·.1)).foldl NameMap.erase x.functions } := by
  induction entries generalizing s with
  | nil =>
    unfold modifyModule
    rw [Table.modify_eq_self (by intros; rfl)]
    rfl
  | cons e entries ih =>
    rw [List.foldl_cons, ih]
    simp only [unregisterFunction, modifyModule, Table.modify_modify]
    rfl

theorem foldl_unregisterVariable (ids : List VarId) (s : Store) (m : ModuleId) :
    ids.foldl (fun s id => s.unregisterVariable m id) s = s.modifyModule m fun x =>
      { x with
        globals := (ids.map fun id => (s.var id).name).foldl NameMap.erase x.globals
        globalOrder := x.globalOrder.filter fun id => !ids.contains id } := by
  induction ids generalizing s with
  | nil =>
    unfold modifyModule
    rw [Table.modify_eq_self (by intros; simp)]
    rfl
  | cons id ids ih =>
    have names : (fun other => ((s.unregisterVariable m id).var other).name) =
        fun other => (s.var other).name := rfl
    rw [List.foldl_cons, ih, names]
    simp only [unregisterVariable, modifyModule, Table.modify_modify]
    congr 2
    funext x
    simp only [Function.comp_apply, List.map_cons, List.foldl_cons, List.filter_filter]
    congr 2
    funext other
    by_cases h : other = id <;> simp [h]

/-- A module from which the functions and globals are gone that are neither native nor in `used`. -/
structure Trimmed (s : Store) (used : List Symbol) (x y : Module) : Prop where
  functions : y.functions.toList = x.functions.toList.filter fun e =>
    Visitor.isNative s e.2 || used.contains (.function e.2)
  globalOrder : y.globalOrder = x.globalOrder.filter fun id => used.contains (.var id)
  globals : y.globals.toList = x.globals.toList.filter fun e =>
    !((x.globalOrder.filter fun id => !used.contains (.var id)).map
      fun id => (s.var id).name).contains e.1
  rest : y = { x with
    functions := y.functions, globals := y.globals, globalOrder := y.globalOrder }

/-- Used functions stay registered. -/
theorem Trimmed.mem_functions {used : List Symbol} {x y : Module} {id : FunctionId}
    (h : s.Trimmed used x y) (hused : .function id ∈ used)
    (hid : id ∈ x.functions.values ++ x.generics.values) :
    id ∈ y.functions.values ++ y.generics.values := by
  rcases List.mem_append.1 hid with hid | hid
  · obtain ⟨⟨name, _⟩, he, rfl⟩ := List.mem_map.1 hid
    refine List.mem_append_left _ (List.mem_map.2 ⟨(name, _), ?_, rfl⟩)
    rw [h.functions, List.mem_filter]
    exact ⟨he, by simp [hused]⟩
  · refine List.mem_append_right _ ?_
    rw [h.rest]
    exact hid

theorem contains_keys_filter {α : Type} (m : NameMap α) (p : String × α → Bool) {e : String × α}
    (he : e ∈ m.toList) : ((m.toList.filter p).map (·.1)).contains e.1 = p e := by
  rw [Bool.eq_iff_iff, List.contains_iff_mem, List.mem_map]
  constructor
  · rintro ⟨f, hf, same⟩
    obtain ⟨hf, hp⟩ := List.mem_filter.1 hf
    have : f = e := by
      obtain ⟨name, a⟩ := e
      obtain ⟨name', b⟩ := f
      obtain rfl : name' = name := same
      have := (NameMap.mem_toList.1 hf).symm.trans (NameMap.mem_toList.1 he)
      rw [Option.some.inj this]
    exact this ▸ hp
  · exact fun hp => ⟨e, List.mem_filter.2 ⟨he, hp⟩, rfl⟩

def roots (s : Store) (m : ModuleId) : List Symbol :=
  (s.entryPoints (s.module m)).map .function ++ (s.computedGlobals (s.module m)).map .var

theorem dropUnused_of_no_entry (h : s.entryPoints (s.module m) = []) :
    s.dropUnused m = .ok (false, s) := by
  unfold dropUnused
  rw [h]
  rfl

def HasUnused (s : Store) (used : List Symbol) (x : Module) : Prop :=
  (∃ e ∈ x.functions.toList, Visitor.isNative s e.2 = false ∧ .function e.2 ∉ used) ∨
    ∃ id ∈ x.globalOrder, .var id ∉ used

/-- `trim` takes out of the module what is neither native nor in `used`, and `removed` says whether
there is such a thing. -/
structure Drops (s : Store) (m : ModuleId) (used : List Symbol) (trim : Module → Module)
    (removed : Bool) : Prop where
  trimmed : s.Trimmed used (s.module m) (trim (s.module m))
  removed_iff : removed = true ↔ s.HasUnused used (s.module m)
  idle : removed = false → ∀ x, trim x = x

/-- The symbols used are found without a fault and marked, and only others leave the module. -/
theorem dropUnused_run (h : s.entryPoints (s.module m) ≠ []) :
    ∃ used trim removed, (∀ x, x ∈ used ↔ s.Used (s.roots m) x) ∧ s.Drops m used trim removed ∧
      s.dropUnused m = .ok (removed, (used.foldl markUsed s).modifyModule m trim) := by
  obtain ⟨used, hused, hmem⟩ := s.reachableFrom_eq_ok (s.roots m)
  have hs₁ : s.Marked (used.foldl markUsed s) := marked_foldl used (.refl s)
  let entries := (s.module m).functions.toList.filter fun e =>
    !Visitor.isNative s e.2 && !used.contains (.function e.2)
  let globals := (s.module m).globalOrder.filter fun id => !used.contains (.var id)
  let trim (x : Module) : Module :=
    { x with
      functions := (entries.map (·.1)).foldl NameMap.erase x.functions
      globals := (globals.map fun id => (s.var id).name).foldl NameMap.erase x.globals
      globalOrder := x.globalOrder.filter fun id => !globals.contains id }
  refine ⟨used, trim, !entries.isEmpty || !globals.isEmpty, hmem, ⟨⟨?_, ?_, ?_, rfl⟩, ?_, ?_⟩, ?_⟩
  · simp only [trim, NameMap.toList_eraseMany]
    refine List.filter_congr fun e he => ?_
    rw [contains_keys_filter _ _ he, Bool.not_and, Bool.not_not, Bool.not_not]
  · refine List.filter_congr fun id hid => ?_
    rw [Bool.eq_iff_iff]
    simp [globals, hid]
  · exact NameMap.toList_eraseMany _ _
  · simp [HasUnused, entries, globals]
  · intro hnone x
    simp only [Bool.or_eq_false_iff, Bool.not_eq_false', List.isEmpty_iff] at hnone
    simp [trim, hnone.1, hnone.2]
  · have hrun : s.dropUnused m =
        .ok (!entries.isEmpty || !globals.isEmpty,
          globals.foldl (fun s id => s.unregisterVariable m id)
            (entries.foldl (fun s f => s.unregisterFunction m f.1) (used.foldl markUsed s))) := by
      unfold dropUnused
      have hne : (s.entryPoints (s.module m)).isEmpty = false := by simpa using h
      have hused' : s.reachableFrom (List.map Symbol.function (s.entryPoints (s.module m)) ++
          List.map Symbol.var (s.computedGlobals (s.module m))) = .ok used := hused
      simp only [hne, Bool.false_eq_true, if_false, hused', bind, Except.bind, hs₁.module m]
      have hentries : (s.module m).functions.toList.filter (fun e : String × FunctionId =>
          !(((used.foldl markUsed s).function? e.2).map (·.isBuiltin)).getD false &&
            !used.contains (.function e.2)) = entries := by
        refine List.filter_congr fun e _ => ?_
        rw [hs₁.isNative]
        rfl
      rw [← hentries]
      rfl
    rw [hrun, foldl_unregisterFunction, foldl_unregisterVariable]
    have names : (fun id => (((used.foldl markUsed s).modifyModule m fun x =>
        { x with functions := (entries.map (·.1)).foldl NameMap.erase x.functions }).var id).name) =
        fun id => (s.var id).name := by
      funext id
      exact hs₁.var_name id
    rw [names]
    simp only [modifyModule, Table.modify_modify]
    rfl

/-- The unused declarations are found without a fault, and only they leave the module. -/
theorem dropUnused_eq_ok (h : s.entryPoints (s.module m) ≠ []) :
    ∃ used s₁ trim removed, (∀ x, x ∈ used ↔ s.Used (s.roots m) x) ∧ s.Marked s₁ ∧
      s.Trimmed used (s.module m) (trim (s.module m)) ∧
      s.dropUnused m = .ok (removed, s₁.modifyModule m trim) := by
  obtain ⟨used, trim, removed, hused, hdrops, hrun⟩ := dropUnused_run h
  exact ⟨used, _, trim, removed, hused, marked_foldl used (.refl s), hdrops.trimmed, hrun⟩

/-- A module that something leaves has less registered. -/
theorem Trimmed.registered_lt {used : List Symbol} {x y : Module} (h : s.Trimmed used x y)
    (hunused : s.HasUnused used x) : y.registered < x.registered := by
  have hfunctions := List.length_filter_le
    (fun e => Visitor.isNative s e.2 || used.contains (.function e.2)) x.functions.toList
  have hglobals := List.length_filter_le (fun id => used.contains (.var id)) x.globalOrder
  have hless : (x.functions.toList.filter fun e =>
        Visitor.isNative s e.2 || used.contains (.function e.2)).length <
          x.functions.toList.length ∨
      (x.globalOrder.filter fun id => used.contains (.var id)).length < x.globalOrder.length := by
    rw [List.length_filter_lt_length_iff_exists, List.length_filter_lt_length_iff_exists]
    exact hunused.imp (fun ⟨e, he, hn, hu⟩ => ⟨e, he, by simp [hn, hu]⟩)
      fun ⟨id, hid, hu⟩ => ⟨id, hid, by simp [hu]⟩
  rw [← h.functions] at hfunctions hless
  rw [← h.globalOrder] at hglobals hless
  simp only [Module.registered, NameMap.values, List.length_map]
  omega

end Store

namespace Program

variable {p : Program}

def IsEntry (p : Program) (id : FunctionId) : Prop :=
  id ∈ p.thisModule.functions.values ∧
    ∃ f, p.store.function? id = some f ∧ (f.exports = true ∨ f.isInit = true)

/-- A global of the module whose initializer does more than give a constant. -/
def IsComputed (p : Program) (id : VarId) : Prop :=
  id ∈ p.thisModule.globalOrder ∧ ∃ i, (p.store.var id).init = some i ∧ i.isLiteral = false

/-- The least set of symbols with the entry points and the computed globals that is closed under
what its symbols use. -/
inductive Needed (p : Program) : Symbol → Prop
  | entry {id} (h : p.IsEntry id) : Needed p (.function id)
  | computed {id} (h : p.IsComputed id) : Needed p (.var id)
  | use {x y} (h : Needed p x) (hu : p.store.Uses x y) : Needed p y

theorem mem_entryPoints {id : FunctionId} :
    id ∈ p.store.entryPoints p.thisModule ↔ p.IsEntry id := by
  unfold Store.entryPoints IsEntry
  rw [List.mem_filter]
  refine and_congr_right fun _ => ?_
  cases p.store.function? id with
  | none => simp
  | some f => simp

theorem mem_computedGlobals {id : VarId} :
    id ∈ p.store.computedGlobals p.thisModule ↔ p.IsComputed id := by
  unfold Store.computedGlobals IsComputed
  rw [List.mem_filter]
  refine and_congr_right fun _ => ?_
  cases (p.store.var id).init with
  | none => simp
  | some i => simp

theorem used_iff_needed {x : Symbol} : p.store.Used (p.store.roots p.this) x ↔ p.Needed x := by
  constructor
  · intro h
    induction h with
    | root h =>
      rcases List.mem_append.1 h with h | h
      · obtain ⟨id, hid, rfl⟩ := List.mem_map.1 h
        exact .entry (mem_entryPoints.1 hid)
      · obtain ⟨id, hid, rfl⟩ := List.mem_map.1 h
        exact .computed (mem_computedGlobals.1 hid)
    | use _ hu ih => exact .use ih hu
  · intro h
    induction h with
    | entry h =>
      exact .root (List.mem_append_left _ (List.mem_map_of_mem (mem_entryPoints.2 h)))
    | computed h =>
      exact .root (List.mem_append_right _ (List.mem_map_of_mem (mem_computedGlobals.2 h)))
    | use _ hu ih => exact .use ih hu

/-- The statements are cleaned after the declarations are dropped. -/
theorem removeUnused_ends {R : Expr → Expr → Prop} {removed : Bool} {s : Store}
    (hR : ∀ s₀, SoundRule (fun _ => Expr.cleanBlock?) s₀ R)
    (h : p.store.dropUnused p.this = .ok (removed, s)) :
    Ends removeUnused p fun _ p' => ∃ t,
      (p.inStore s).collect.store.Rewritten R t ∧
        p' = ((p.inStore s).collect.inStore t).collect := by
  have hget : (get : ProgramM Program).run p = .ok (p, p) := rfl
  refine .bind_run hget ?_
  rw [h]
  refine .bind_run (a := ()) rfl (.bind (rewrite_ends _ (hR _)) ?_)
  intro changed p' hp'
  exact .pure hp'

theorem thisModule_removeUnused {removed : Bool} {s : Store} (hthis : p.this ∈ p.library)
    (h : p.store.dropUnused p.this = .ok (removed, s)) :
    Ends removeUnused p fun _ p' => p'.thisModule = s.module p.this := by
  refine (removeUnused_ends (fun _ => .trivial Expr.weight_cleanBlock) h).mono ?_
  rintro _ p' ⟨t, ht, hp'⟩
  have after : p'.thisModule = t.module p.this := by
    subst hp'
    exact module_collect (p := (p.inStore s).collect.inStore t) hthis
  have before : t.module p.this = (p.inStore s).collect.store.module p.this := by
    simp only [Store.module, Store.module?, ht.modules]
  rw [after, before]
  exact module_collect (p := p.inStore s) hthis

/-- Globals are filed under their own names, and the map and the order list have the same ones. -/
def GlobalsFiled (p : Program) : Prop :=
  ∀ name id, p.thisModule.globals.find? name = some id ↔
    id ∈ p.thisModule.globalOrder ∧ (p.store.var id).name = name

theorem globals_of_trimmed {used : List Symbol} {y : Module} (hf : p.GlobalsFiled)
    (h : p.store.Trimmed used p.thisModule y) :
    y.globals.toList = p.thisModule.globals.toList.filter fun e => used.contains (.var e.2) := by
  rw [h.globals]
  refine List.filter_congr ?_
  rintro ⟨name, id⟩ he
  obtain ⟨hid, hname⟩ := (hf name id).1 (NameMap.mem_toList.1 he)
  rw [Bool.eq_iff_iff]
  simp only [Bool.not_eq_true', List.contains_eq_mem, List.mem_map, List.mem_filter,
    decide_eq_false_iff_not, decide_eq_true_eq]
  constructor
  · intro hn
    by_contra hused
    exact hn ⟨id, ⟨hid, by simpa using hused⟩, hname⟩
  · rintro hused ⟨other, ⟨hother, hun⟩, same⟩
    have : other = id := by
      have h₁ := (hf name other).2 ⟨hother, same⟩
      have h₂ := (hf name id).2 ⟨hid, hname⟩
      rw [h₁] at h₂
      exact Option.some.inj h₂
    subst this
    simp [hused] at hun

/-- The module from which declarations are taken is there, as it has an entry point. -/
theorem module_trimmed {s₁ : Store} (hentry : p.store.entryPoints p.thisModule ≠ [])
    (hs₁ : p.store.Marked s₁) (trim : Module → Module) :
    (s₁.modifyModule p.this trim).module p.this = trim p.thisModule := by
  cases hm : p.store.module? p.this with
  | none =>
    have : p.thisModule = default := by
      simp only [thisModule, Store.module, hm, Option.getD_none]
    rw [this] at hentry
    exact absurd rfl hentry
  | some x =>
    have hx : s₁.modules.get? p.this = some x := by
      rw [hs₁.modules]
      exact hm
    simp only [thisModule, Store.module, Store.module?, Store.modifyModule,
      Table.get?_modify_self, hx, ← hs₁.modules, Option.map_some, Option.getD_some]

/-- The removal always ends. Without an entry point it takes no declaration out of the module. With
one it leaves exactly the native functions and what the program needs, under the old keys and in the
old order, and all other maps of the module as they are. -/
theorem removeUnused_exact (p : Program) (hthis : p.this ∈ p.library) :
    Ends removeUnused p fun _ p' =>
      ((¬ ∃ id, p.IsEntry id) → p'.thisModule = p.thisModule) ∧
      ((∃ id, p.IsEntry id) → ∃ needed : List Symbol, (∀ x, x ∈ needed ↔ p.Needed x) ∧
        p'.thisModule.functions.toList = (p.thisModule.functions.toList.filter fun e =>
          Visitor.isNative p.store e.2 || needed.contains (.function e.2)) ∧
        p'.thisModule.globalOrder = (p.thisModule.globalOrder.filter fun id =>
          needed.contains (.var id)) ∧
        (p.GlobalsFiled → p'.thisModule.globals.toList =
          p.thisModule.globals.toList.filter fun e => needed.contains (.var e.2)) ∧
        p'.thisModule = { p.thisModule with
          functions := p'.thisModule.functions
          globals := p'.thisModule.globals
          globalOrder := p'.thisModule.globalOrder }) := by
  by_cases hentry : p.store.entryPoints p.thisModule = []
  · have none (id : FunctionId) : ¬ p.IsEntry id := by
      rw [← mem_entryPoints, hentry]
      exact List.not_mem_nil
    refine (thisModule_removeUnused hthis (Store.dropUnused_of_no_entry hentry)).mono ?_
    intro _ p' h
    refine ⟨fun _ => h, ?_⟩
    rintro ⟨id, hid⟩
    exact absurd hid (none id)
  · obtain ⟨used, s₁, trim, removed, hused, hs₁, htrim, hdrop⟩ := Store.dropUnused_eq_ok hentry
    have some : ∃ id, p.IsEntry id := by
      obtain ⟨id, hid⟩ := List.exists_mem_of_ne_nil _ hentry
      exact ⟨id, mem_entryPoints.1 hid⟩
    have hmodule := module_trimmed hentry hs₁ trim
    refine (thisModule_removeUnused hthis hdrop).mono fun _ p' h => ⟨fun hn => absurd some hn, ?_⟩
    rw [hmodule] at h
    intro _
    rw [h]
    refine ⟨used, fun x => (hused x).trans used_iff_needed, htrim.functions, htrim.globalOrder,
      fun hf => globals_of_trimmed hf htrim, htrim.rest⟩

/-- A module with the exported function `main` and a function `idle` that nothing names. -/
def mainAndIdle : Program where
  store :=
    { functions := { slots := #[some { name := "main", exports := true }, some { name := "idle" }] }
      modules := { slots := #[some
        { name := "", functions := .ofList [("@main", ⟨0⟩), ("@idle", ⟨1⟩)] }] } }
  library := [⟨0⟩]
  this := ⟨0⟩

theorem needed_mainAndIdle {x : Symbol} (h : mainAndIdle.Needed x) : x = .function ⟨0⟩ := by
  induction h with
  | @entry id h =>
    obtain ⟨hid, f, hf, hentry⟩ := h
    have hid : id ∈ [(⟨1⟩ : FunctionId), ⟨0⟩] := hid
    rcases List.mem_cons.1 hid with rfl | hid
    · cases hf
      simp at hentry
    · rw [List.mem_singleton.1 hid]
  | computed h => cases h.1
  | use _ hu ih =>
    subst ih
    cases hu with
    | body hf hb =>
      cases hf
      cases hb
    | argument hf ha =>
      cases hf
      cases ha

theorem removeUnused_exact_mainAndIdle :
    mainAndIdle.this ∈ mainAndIdle.library ∧
      Ends removeUnused mainAndIdle fun _ p' =>
        p'.thisModule.functions.toList = [("@main", ⟨0⟩)] := by
  have hthis : mainAndIdle.this ∈ mainAndIdle.library := .head _
  refine ⟨hthis, (removeUnused_exact mainAndIdle hthis).mono fun _ p' h => ?_⟩
  have main : mainAndIdle.IsEntry ⟨0⟩ := ⟨by decide, _, rfl, .inl rfl⟩
  obtain ⟨needed, hneeded, hfunctions, _⟩ := h.2 ⟨_, main⟩
  have hmain : Symbol.function ⟨0⟩ ∈ needed := (hneeded _).2 (.entry main)
  have hidle : Symbol.function ⟨1⟩ ∉ needed := fun h => by
    have := needed_mainAndIdle ((hneeded _).1 h)
    cases this
  have entries : mainAndIdle.thisModule.functions.toList = [("@idle", ⟨1⟩), ("@main", ⟨0⟩)] := by
    decide
  rw [hfunctions, entries]
  have native (i : FunctionId) (h : i = ⟨0⟩ ∨ i = ⟨1⟩) :
      Visitor.isNative mainAndIdle.store i = false := by
    rcases h with rfl | rfl <;> rfl
  simp [hmain, hidle, native]

end Program

end Frontend
