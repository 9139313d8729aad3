import Frontend.Proofs.Declaring.Redeclaring
import Frontend.Proofs.Registration.Replacing

/-!
# The globals of a module

Globals are registered one after the other, under their names and in their order. The ones that the
module has count as earlier declarations, and so does every global before it in the same lines: of
each name the first one is registered, and each later one is reported.
-/

namespace Frontend

def Variable.inModule (v : Variable) (module : String) : Variable :=
  { v with module? := some module }

namespace Program

variable {p q r : Program} {s : Store} {id : VarId} {ids ids' : List VarId} {v b : Variable}
  {kept kept' before : List Variable}

def globals (p : Program) : List Variable :=
  p.thisModule.globals.toList.map fun (name, id) => { p.store.var id with name }

/-- No name is filed twice. -/
theorem nodup_globals (p : Program) : (p.globals.map Variable.name).Nodup := by
  rw [globals, List.map_map]
  have ascending := p.thisModule.globals.ascending
  refine List.Pairwise.map _ (fun e f below => ?_) ascending
  exact String.ne_of_lt below

/-- The program's own module is there, and so are its globals. -/
structure HoldsGlobals (p : Program) : Prop where
  this : (p.store.module? p.this).isSome = true
  held : ∀ name id, p.thisModule.globals.find? name = some id → ∃ v, p.store.vars.get? id = some v

def Sees (p : Program) (before : List Variable) : Prop :=
  ∀ name, (p.thisModule.globals.find? name).map
      (fun id => (p.store.vars.get? id).map Variable.span) =
    (before.find? (Variable.name · == name)).map fun v => some v.span

theorem Sees.held (h : p.Sees before) (name : String) (id : VarId)
    (hid : p.thisModule.globals.find? name = some id) : ∃ v, p.store.vars.get? id = some v := by
  have seen := h name
  rw [hid, Option.map_some] at seen
  obtain ⟨_, -, span⟩ := Option.map_eq_some_iff.1 seen.symm
  obtain ⟨v, hv, -⟩ := Option.map_eq_some_iff.1 span.symm
  exact ⟨v, hv⟩

/-- Globals are put behind those of the module, and filed under their names. -/
structure TakesGlobals (p q : Program) (ids : List VarId) (kept : List Variable) : Prop where
  this : q.this = p.this
  isSome : (q.store.module? q.this).isSome = (p.store.module? p.this).isSome
  name : q.thisModule.name = p.thisModule.name
  order : q.thisModule.globalOrder = p.thisModule.globalOrder ++ ids
  filed : ∀ name, q.thisModule.globals.find? name =
    (p.thisModule.globals.find? name).or (((kept.map Variable.name).zip ids).lookup name)
  has : q.store.Has ids (kept.map (·.inModule p.thisModule.name))
  vars : p.store.vars.PartOf q.store.vars
  structs : q.store.structs = p.store.structs

theorem TakesGlobals.of_eq (this : q.this = p.this) (modules : q.store.modules = p.store.modules)
    (vars : p.store.vars.PartOf q.store.vars) (structs : q.store.structs = p.store.structs) :
    p.TakesGlobals q [] [] := by
  have same : q.store.module? q.this = p.store.module? p.this := by
    rw [Store.module?, modules, this, Store.module?]
  have module : q.thisModule = p.thisModule := by
    rw [thisModule, Store.module, same, thisModule, Store.module]
  exact
    { this, vars, structs, has := .nil
      isSome := congrArg Option.isSome same
      name := congrArg Module.name module
      order := by rw [module, List.append_nil]
      filed := fun name => by rw [module]; exact Option.or_none.symm }

theorem TakesGlobals.trans (h : p.TakesGlobals q ids kept) (h' : q.TakesGlobals r ids' kept') :
    p.TakesGlobals r (ids ++ ids') (kept ++ kept') where
  this := h'.this.trans h.this
  isSome := h'.isSome.trans h.isSome
  name := h'.name.trans h.name
  order := by rw [h'.order, h.order, List.append_assoc]
  filed name := by
    have lengths : (kept.map Variable.name).length = ids.length := by
      have := h.has.length_eq
      rw [List.length_map] at this ⊢
      exact this.symm
    rw [h'.filed, h.filed, List.map_append, List.zip_append lengths, List.lookup_append,
      Option.or_assoc]
  has := by
    rw [List.map_append]
    exact List.rel_append (h.has.mono h'.vars) (h.name ▸ h'.has)
  vars := h.vars.trans h'.vars
  structs := h'.structs.trans h.structs

/-- To look up a name among filed globals is to look for the first of that name. -/
theorem lookup_spans (h : ids.Forall₂ (fun id v =>
      (s.vars.get? id).map Variable.span = some v.span) kept) (name : String) :
    (((kept.map Variable.name).zip ids).lookup name).map
        (fun id => (s.vars.get? id).map Variable.span) =
      (kept.find? (Variable.name · == name)).map fun v => some v.span := by
  induction h with
  | nil => rfl
  | @cons id v ids kept stored _ ih =>
    rw [List.map_cons, List.zip_cons_cons]
    by_cases here : name = v.name
    · rw [here, List.lookup_cons_self, List.find?_cons_of_pos (by simp), Option.map_some, stored]
      rfl
    · have other : (name == v.name) = false := by simpa using here
      rw [List.lookup_cons, other, List.find?_cons_of_neg (by simpa using Ne.symm here)]
      exact ih

/-- The globals of the module are seen before any others. -/
theorem HoldsGlobals.sees (h : p.HoldsGlobals) : p.Sees p.globals := by
  intro name
  have filed : p.thisModule.globals.toList =
      (p.globals.map Variable.name).zip (p.thisModule.globals.toList.map Prod.snd) := by
    rw [globals, List.map_map, List.zip_map']
    exact (List.map_id _).symm
  have held : (p.thisModule.globals.toList.map Prod.snd).Forall₂ (fun id v =>
      (p.store.vars.get? id).map Variable.span = some v.span) p.globals := by
    refine List.forall₂_map_left_iff.2 (List.forall₂_map_right_iff.2 (List.forall₂_same.2 ?_))
    rintro ⟨name, id⟩ hid
    obtain ⟨v, hv⟩ := h.held name id (NameMap.mem_toList.1 hid)
    have span : (p.store.var id).span = v.span := by rw [Store.var, hv, Option.getD_some]
    rw [hv, Option.map_some, ← span]
  rw [← lookup_spans held, ← filed]
  rfl

/-- What the module knows once globals are filed under new names. -/
theorem TakesGlobals.sees (h : p.TakesGlobals q ids kept) (sees : p.Sees before) :
    q.Sees (before ++ kept) := by
  intro name
  have old := sees name
  have has := h.has
  rw [Store.Has, List.forall₂_map_right_iff] at has
  have stored := List.Forall₂.imp (fun id v hv => congrArg (Option.map Variable.span) hv) has
  rw [h.filed, List.find?_append]
  cases found : p.thisModule.globals.find? name with
  | none =>
    rw [found, Option.map_none, eq_comm, Option.map_eq_none_iff] at old
    rw [old, Option.none_or, Option.none_or]
    exact lookup_spans stored name
  | some id =>
    rw [found, Option.map_some] at old
    obtain ⟨b, hb, span⟩ := Option.map_eq_some_iff.1 old.symm
    obtain ⟨w, hw, -⟩ := Option.map_eq_some_iff.1 span.symm
    rw [hb, Option.some_or, Option.some_or, Option.map_some, Option.map_some, span, hw,
      h.vars id w hw]

section Steps

def addGlobal (v : Variable) : ProgramM (ForInStep PUnit) := do
  let p ← get
  let (id, store) := p.store.addVariable v
  let (added, p) := { p with store }.register fun s m => s.registerVariable m id
  set p
  if !added then
    let previous := (p.thisModule.globals.find? v.name).map fun g => (p.store.var g).span
    reported (.globalVariableAlreadyDeclared v.name previous) v.span
  return .yield ⟨⟩

/-- Globals are declared one after the other. -/
theorem addGlobals_eq (lines : List Line) : addGlobals lines = do
    let vars ← takeLines lines
    forIn vars PUnit.unit fun v _ => addGlobal v
    return := rfl

theorem lookup_single (name key : String) (id : VarId) :
    [(key, id)].lookup name = if name = key then some id else none := by
  by_cases here : name = key
  · rw [here, List.lookup_cons_self, if_pos rfl]
  · have other : (name == key) = false := by simpa using here
    rw [List.lookup_cons, other, if_neg here]
    rfl

def withGlobal (p : Program) (v : Variable) : Store :=
  ((p.store.addVariable v).2.modifyVariable (p.store.addVariable v).1
    (·.inModule p.thisModule.name)).modifyModule p.this
      (Entry.global v.name (p.store.addVariable v).1).put

theorem registerVariable_eq (v : Variable) (p : Program) :
    (p.store.addVariable v).2.registerVariable p.this (p.store.addVariable v).1 =
      if p.thisModule.globals.contains v.name = true then (false, (p.store.addVariable v).2)
      else (true, p.withGlobal v) := by
  have name : ((p.store.addVariable v).2.var (p.store.addVariable v).1).name = v.name := by
    have stored : (p.store.addVariable v).2.vars.get? (p.store.addVariable v).1 = some v :=
      Table.get?_push_nextId _ v
    rw [Store.var, stored, Option.getD_some]
  rw [Store.registerVariable, name]
  rfl

theorem run_addGlobal_of_free (h : p.thisModule.globals.find? v.name = none) :
    (addGlobal v).run p = .ok (.yield ⟨⟩, p.inStore (p.withGlobal v)) := by
  have register : ({ p with store := (p.store.addVariable v).2 } : Program).register
      (fun s m => s.registerVariable m (p.store.addVariable v).1) =
        (true, p.inStore (p.withGlobal v)) := by
    rw [register_eq, registerVariable_eq, NameMap.contains, h]
    rfl
  unfold addGlobal
  rw [StateT.run_bind, StateT.run_get, pure_bind]
  dsimp only
  rw [register]
  rfl

theorem run_addGlobal_of_taken (h : p.thisModule.globals.find? v.name = some id) :
    (addGlobal v).run p = .ok (.yield ⟨⟩, (p.inStore (p.store.addVariable v).2).reportAt
      (.globalVariableAlreadyDeclared v.name (some ((p.store.addVariable v).2.var id).span))
        v.span) := by
  have register : ({ p with store := (p.store.addVariable v).2 } : Program).register
      (fun s m => s.registerVariable m (p.store.addVariable v).1) =
        (false, p.inStore (p.store.addVariable v).2) := by
    rw [register_eq, registerVariable_eq, NameMap.contains, h]
    rfl
  have filed : (p.inStore (p.store.addVariable v).2).thisModule.globals.find? v.name = some id := h
  unfold addGlobal
  rw [StateT.run_bind, StateT.run_get, pure_bind]
  dsimp only
  rw [register]
  dsimp only
  rw [filed]
  rfl

/-- A variable that is registered as a global, by a name that is new. -/
theorem takesGlobals_of_free (hp : (p.store.module? p.this).isSome = true)
    (free : p.thisModule.globals.find? v.name = none) :
    p.TakesGlobals (p.inStore (p.withGlobal v)) [(p.store.addVariable v).1] [v] := by
  unfold withGlobal
  set id := (p.store.addVariable v).1
  set s := (p.store.addVariable v).2.modifyVariable id
    (·.inModule p.thisModule.name)
  have module : (p.inStore (s.modifyModule p.this (Entry.global v.name id).put)).thisModule =
      (Entry.global v.name id).put p.thisModule := Store.module_modifyModule (s := s) hp _
  exact
    { this := rfl
      isSome := Store.isSome_modifyModule _ _ _
      name := by rw [module]; rfl
      order := by rw [module]; rfl
      filed := fun name => by
        rw [module, List.map_singleton, List.zip_cons_cons, List.zip_nil_left, lookup_single]
        change (p.thisModule.globals.insert v.name id).find? name = _
        by_cases here : name = v.name
        · rw [here, NameMap.find?_insert_self, free, if_pos rfl]
          rfl
        · rw [NameMap.find?_insert_of_ne _ _ here, if_neg here, Option.or_none]
      has := by
        refine .cons ?_ .nil
        have stored : (p.store.addVariable v).2.vars.get? id = some v := Table.get?_push_nextId _ v
        exact (Table.get?_modify_self _ _ _).trans (congrArg (Option.map _) stored)
      vars := (p.store.vars.partOf_push v).modify (Table.get?_nextId _) _
      structs := rfl }

/-- A global whose name is new is registered. -/
theorem addGlobal_of_free (hp : (p.store.module? p.this).isSome = true) (sees : p.Sees before)
    (free : before.find? (Variable.name · == v.name) = none) :
    Ends (addGlobal v) p fun step q => step = .yield ⟨⟩ ∧ (∃ id, p.TakesGlobals q [id] [v]) ∧
      q.Sees (before ++ [v]) ∧ q.errors = p.errors := by
  have filed : p.thisModule.globals.find? v.name = none := by
    have := sees v.name
    rwa [free, Option.map_none, Option.map_eq_none_iff] at this
  have takes := takesGlobals_of_free hp filed
  exact ⟨_, _, run_addGlobal_of_free filed, rfl, ⟨_, takes⟩, takes.sees sees, rfl⟩

/-- A global whose name is taken is reported, with the place of the one that took it. -/
theorem addGlobal_of_taken (sees : p.Sees before)
    (taken : before.find? (Variable.name · == v.name) = some b) :
    Ends (addGlobal v) p fun step q => step = .yield ⟨⟩ ∧ p.TakesGlobals q [] [] ∧
      q.Sees (before ++ [v]) ∧ q.errors = p.errors ++
        [(Problem.globalVariableAlreadyDeclared v.name (some b.span)).report v.span] := by
  have old := sees v.name
  rw [taken, Option.map_some] at old
  obtain ⟨id, filed, span⟩ := Option.map_eq_some_iff.1 old
  obtain ⟨w, hw, hspan⟩ := Option.map_eq_some_iff.1 span
  have later : p.store.vars.PartOf (p.store.addVariable v).2.vars := p.store.vars.partOf_push v
  have takes : p.TakesGlobals ((p.inStore (p.store.addVariable v).2).reportAt
      (.globalVariableAlreadyDeclared v.name (some ((p.store.addVariable v).2.var id).span))
        v.span) [] [] := .of_eq rfl rfl later rfl
  refine ⟨_, _, run_addGlobal_of_taken filed, rfl, takes, fun name => ?_, ?_⟩
  · -- the name is known, so nothing new is to be seen
    rw [← find?_append_kept taken fun _ => rfl, takes.sees sees, List.append_nil]
  · have place : ((p.store.addVariable v).2.var id).span = b.span := by
      rw [Store.var, later id w hw, Option.getD_some, hspan]
    rw [place]
    rfl

end Steps

/-- The globals that are registered are the first ones of their names, by induction on the
declarations. -/
theorem addEach_ends (vars : List Variable) (hp : (p.store.module? p.this).isSome = true)
    (sees : p.Sees before) :
    Ends (forIn vars PUnit.unit fun v _ => addGlobal v) p fun _ q =>
      (∃ ids, p.TakesGlobals q ids (firsts Variable.name before vars)) ∧
      q.errors = p.errors ++ (repeats Variable.name before vars).map fun (v, first) =>
        (Problem.globalVariableAlreadyDeclared v.name (some first.span)).report v.span := by
  induction vars generalizing p before with
  | nil => exact .pure ⟨⟨[], .of_eq rfl rfl (Table.partOf_refl _) rfl⟩, (List.append_nil _).symm⟩
  | cons v vars ih =>
    rw [List.forIn_cons]
    cases found : before.find? (Variable.name · == v.name) with
    | none =>
      refine (addGlobal_of_free hp sees found).bind ?_
      rintro _ q ⟨rfl, ⟨id, takes⟩, sees', errors⟩
      refine (ih (takes.isSome.trans hp) sees').mono ?_
      rintro _ r ⟨⟨ids, takes'⟩, errors'⟩
      rw [firsts_cons_of_none found, repeats_cons_of_none found]
      exact ⟨⟨id :: ids, takes.trans takes'⟩, by rw [errors', errors]⟩
    | some b =>
      refine (addGlobal_of_taken sees found).bind ?_
      rintro _ q ⟨rfl, takes, sees', errors⟩
      refine (ih (takes.isSome.trans hp) sees').mono ?_
      rintro _ r ⟨⟨ids, takes'⟩, errors'⟩
      rw [firsts_cons_of_some found, repeats_cons_of_some found]
      refine ⟨⟨ids, takes.trans takes'⟩, ?_⟩
      rw [errors', errors, List.map_cons, List.append_assoc, List.singleton_append]

/-- The globals of the module are those that it had and the first ones of their names that are
declared. -/
theorem addGlobals_endsIf (hp : p.HoldsGlobals) (lines : List Line) :
    EndsIf (p.CanTake lines) (addGlobals lines) p fun _ q => ∃ vars ids,
      p.store.DeclaresLines q.store lines vars ∧
      p.TakesGlobals q ids (firsts Variable.name p.globals vars) ∧
      p.ReportsRepeats q .globalVariableAlreadyDeclared Variable.span (some ·.span)
        (fun (v, first) => .globalVariableAlreadyDeclared v.name (some first.span))
        (repeats Variable.name p.globals vars) := by
  rw [addGlobals_eq]
  refine (takeLines_endsIf lines p).bind ?_
  rintro vars _ ⟨t, rfl, adds, declares⟩
  refine .of_ends ?_
  -- the initializers of the lines are new variables, which are no globals yet
  have modules : t.modules = p.store.modules := by rw [adds.rest]
  have takes : p.TakesGlobals (p.inStore t) [] [] := .of_eq rfl modules adds.vars adds.structs
  have sees := takes.sees hp.sees
  rw [List.append_nil] at sees
  refine Ends.bind (addEach_ends vars (takes.isSome.trans hp.this) sees) ?_
  rintro _ q ⟨⟨ids, takes'⟩, errors⟩
  refine .pure ⟨vars, ids, declares.mono takes'.vars, takes.trans takes', ?_, [], ?_,
    List.forall_mem_nil _⟩
  · exact fun r _ => CompileError.redeclares_withPrevious _ r.1.span (some r.2.span) rfl
  · rw [errors, List.append_nil]
    rfl

end Program

end Frontend
