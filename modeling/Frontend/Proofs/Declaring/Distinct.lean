import Frontend.Proofs.Declaring.Fields
import Frontend.Proofs.Declaring.Globals

/-!
# Distinct names

Whatever a parser does to a program, the fields of every structure have distinct names, and the
globals that the module knows are there. So of all that a declaration adds to, the names were
distinct before.
-/

namespace Frontend.Program

variable {p q : Program}

/-- The program is sound, its globals are there and the fields of its structures have distinct
names. -/
structure Orderly (p : Program) : Prop where
  sound : p.Sound
  held : ∀ name id, p.thisModule.globals.find? name = some id → ∃ v, p.store.vars.get? id = some v
  fields : ∀ id x, p.store.struct? id = some x → (x.fields.map Field.name).Nodup

theorem Orderly.holdsGlobals (h : p.Orderly) : p.HoldsGlobals where
  this := by
    obtain ⟨x, hx⟩ := h.sound.this
    rw [hx]
    rfl
  held := h.held

theorem Orderly.nodup_parentFields (h : p.Orderly) (parent : Option StructId) :
    ((p.parentFields parent).map Field.name).Nodup := by
  cases parent with
  | none => exact List.nodup_nil
  | some parent =>
    change ((((p.store.struct? parent).map (·.fields)).getD []).map Field.name).Nodup
    cases hx : p.store.struct? parent with
    | none => exact List.nodup_nil
    | some x => exact h.fields parent x hx

def SameStructs (p q : Program) : Prop := q.store.structs = p.store.structs

instance : Std.Refl SameStructs := ⟨fun _ => rfl⟩

instance : IsTrans Program SameStructs where
  trans _ _ _ h h' := h'.trans h

def KeepsOrder (p q : Program) : Prop := p.Orderly → q.Orderly

instance : Std.Refl KeepsOrder := ⟨fun _ h => h⟩

instance : IsTrans Program KeepsOrder where
  trans _ _ _ h h' hp := h' (h hp)

theorem SameStructs.fields (h : p.SameStructs q) (hp : p.Orderly) (id : StructId) (x : Struct)
    (hx : q.store.struct? id = some x) : (x.fields.map Field.name).Nodup := by
  rw [Store.struct?, h] at hx
  exact hp.fields id x hx

theorem Grows.held (h : p.Grows q) (hp : p.Orderly) (name : String) (id : VarId)
    (hid : q.thisModule.globals.find? name = some id) : ∃ v, q.store.vars.get? id = some v := by
  rw [show q.thisModule = p.thisModule from h.thisModule] at hid
  obtain ⟨v, hv⟩ := hp.held name id hid
  exact ⟨v, h.kept.vars id v hv⟩

/-- A global that is registered is there. -/
theorem Gains.held {entry : Entry} (h : p.Gains entry q) (hp : p.Orderly) (name : String)
    (id : VarId) (hid : q.thisModule.globals.find? name = some id) :
    ∃ v, q.store.vars.get? id = some v := by
  have module : q.thisModule = entry.put p.thisModule := by
    rw [Program.thisModule, Store.module, h.this, h.thisModule hp.sound, Option.getD_some]
  have old (hid : p.thisModule.globals.find? name = some id) :
      ∃ v, q.store.vars.get? id = some v := by
    obtain ⟨v, hv⟩ := hp.held name id hid
    exact ⟨v, h.kept.vars id v hv⟩
  rw [module] at hid
  cases entry with
  | global key new =>
    obtain ⟨-, v, hv, -⟩ := h.isNew
    by_cases same : name = key
    · rw [same] at hid
      cases (NameMap.find?_insert_self _ _ _).symm.trans hid
      exact ⟨v, hv⟩
    · exact old ((NameMap.find?_insert_of_ne _ _ same).symm.trans hid)
  | function shelf => cases shelf <;> exact old hid
  | _ => exact old hid

theorem Outcome.held {declared : Bool} {P : Entry → Prop} (h : p.Outcome declared P q)
    (hp : p.Orderly) (name : String) (id : VarId)
    (hid : q.thisModule.globals.find? name = some id) : ∃ v, q.store.vars.get? id = some v := by
  cases declared with
  | true =>
    obtain ⟨entry, -, gains⟩ := h.gains rfl
    exact gains.held hp name id hid
  | false => exact (h.refuses rfl).toGrows.held hp name id hid

theorem Grows.keepsOrder (h : p.Grows q) (structs : p.SameStructs q) : p.KeepsOrder q :=
  fun hp => ⟨(h.proceeds hp.sound).2, h.held hp, structs.fields hp⟩

theorem Outcome.keepsOrder {declared : Bool} {P : Entry → Prop} (h : p.Outcome declared P q)
    (structs : p.SameStructs q) : p.KeepsOrder q :=
  fun hp => ⟨(h.proceeds hp.sound).2, h.held hp, structs.fields hp⟩

theorem Along.keepsOrder {α : Type} {work : ProgramM α} (h : RegistersNothing work)
    (structs : Along SameStructs work) : Along KeepsOrder work :=
  fun p => ((h p).and (structs p)).mono fun _ _ ⟨grows, same⟩ => grows.keepsOrder same

section Actions

theorem reported_sameStructs (problem : Problem) (span : Span) :
    Along SameStructs (reported problem span) := fun p => by
  intro _ _ hrun
  cases hrun
  rfl

theorem refused_sameStructs {α : Type} (problem : Problem) (span : Span) (a : α) :
    Along SameStructs (do
      reported problem span
      return a) := .bind (reported_sameStructs problem span) fun _ => .pure a

theorem findAnnotation_sameStructs (name : String) (span : Span) :
    Along SameStructs <| findAnnotation name span := by
  refine .bind_get fun p => ?_
  split
  · exact .pure rfl
  · exact refused_sameStructs _ _ _ p
  · exact refused_sameStructs _ _ _ p

theorem makeEnumConstant_sameStructs (span : Span) (enumeration value : String) :
    Along SameStructs (makeEnumConstant span enumeration value) := by
  refine .bind_get fun p => ?_
  split
  · exact refused_sameStructs _ _ _ p
  · dsimp only
    split
    · exact refused_sameStructs _ _ _ p
    · split
      · exact .throw
      · exact .pure rfl
  · exact refused_sameStructs _ _ _ p

theorem pipe_sameStructs (span : Span) (call : Expr) (f : List Expr → List Expr) :
    Along SameStructs (pipe span call f) := by
  unfold pipe
  split
  · exact .pure _
  · exact refused_sameStructs _ _ _

theorem structs_registerAlias (s : Store) (m : ModuleId) (t : Ty) :
    (s.registerAlias m t).2.structs = s.structs := by
  unfold Store.registerAlias
  split <;> rfl

theorem makeAlias_sameStructs (span : Span) (t : Ty) : Along SameStructs (makeAlias span t) := by
  refine .bind_get fun p => .bind_run (a := ⟨⟩) rfl ?_
  have same : p.SameStructs (p.register fun s m => s.registerAlias m (t.withSpan span)).2 :=
    structs_registerAlias _ _ _
  dsimp only
  split
  · exact (refused_sameStructs _ _ _ _).mono fun _ _ h => IsTrans.trans _ _ _ same h
  · exact .pure same

/-- Globals are registered behind those that are there. -/
theorem addGlobals_keepsOrder (lines : List Line) : Along KeepsOrder (addGlobals lines) := by
  intro p a q hrun hp
  obtain ⟨vars, ids, -, takes, -⟩ := (addGlobals_endsIf hp.holdsGlobals lines).1 a q hrun
  have sound := (addGlobals_proceeds lines p a q hrun hp.sound).2
  have sees := takes.sees hp.holdsGlobals.sees
  exact ⟨sound, sees.held, SameStructs.fields takes.structs hp⟩

/-- A structure has the fields of its parent, whose names are distinct, and others with new names. -/
theorem makeStruct_keepsOrder (span : Span) (name : String) (parent : Option StructId)
    (lines : List Line) (annots : List AnnotUse) :
    Along KeepsOrder (makeStruct span name parent lines annots) := by
  intro p a q hrun hp
  have outcome := makeStruct_outcome span name parent lines annots hp.sound a q hrun
  obtain ⟨inherited, vars, inherits, -, declares, -⟩ :=
    (makeStruct_endsIf span name parent lines annots p).1 a q hrun
  refine ⟨(outcome.proceeds hp.sound).2, outcome.held hp, fun id x hx => ?_⟩
  rcases declares.others id x hx with old | new
  · obtain ⟨y, hy, fields⟩ := Option.map_eq_some_iff.1 old
    rw [← fields]
    exact hp.fields id y hy
  · rw [new, nodup_fieldsBehind_iff inherits]
    exact hp.nodup_parentFields parent

/-- One action. -/
theorem Action.run_keepsOrder (action : Action) : Along KeepsOrder action.run := by
  cases action with
  | error message span kind =>
    intro p _ _ hrun
    cases hrun
    exact (grows_report p _).keepsOrder rfl
  | annotation name span =>
    have same := findAnnotation_sameStructs name span
    have grows := findAnnotation_registersNothing name span
    exact (Along.keepsOrder grows same).discard
  | function span name args result body annots =>
    refine Along.discard fun p a q hrun => ?_
    obtain ⟨vars, -, -, structs, -⟩ :=
      (makeFunction_endsIf span name result body annots args p).1 a q hrun
    exact (makeFunction_outcome span name args result body annots p a q hrun).keepsOrder structs
  | locals span inScope lines =>
    refine Along.discard (.keepsOrder (makeLet_registersNothing span inScope lines) ?_)
    intro p a q hrun
    obtain ⟨vars, ids, -, -, -, structs, -⟩ := (makeLet_endsIf span inScope lines p).1 a q hrun
    exact structs
  | globals lines => exact addGlobals_keepsOrder lines
  | enumeration span name base entries =>
    refine Along.discard fun p a q hrun => ?_
    have structs := ((makeEnumeration_firsts span name base entries p).of_run hrun).2.1
    exact (makeEnumeration_outcome span name base entries p a q hrun).keepsOrder structs
  | struct span name parent lines annots =>
    exact (makeStruct_keepsOrder span name parent lines annots).discard
  | fieldCycles id =>
    refine Along.discard fun p => (checkFieldCycles_yields id p).mono ?_
    rintro _ q ⟨hstore, grows, -⟩
    exact grows.keepsOrder (congrArg Store.structs hstore)
  | typeAlias span t =>
    refine Along.discard fun p a q hrun => ?_
    exact (makeAlias_outcome span t p a q hrun).keepsOrder (makeAlias_sameStructs span t p a q hrun)
  | enumConstant span name value =>
    exact (Along.keepsOrder (makeEnumConstant_registersNothing span name value)
      (makeEnumConstant_sameStructs span name value)).discard
  | pipeLast span call argument =>
    exact (Along.keepsOrder (pipe_registersNothing span call _)
      (pipe_sameStructs span call _)).discard
  | pipeFirst span argument call =>
    exact (Along.keepsOrder (pipe_registersNothing span call _)
      (pipe_sameStructs span call _)).discard

/-- All actions, by induction on them. -/
theorem perform_keepsOrder (actions : List Action) : Along KeepsOrder (perform actions) := by
  induction actions with
  | nil => exact .pure _
  | cons action actions ih => exact Along.bind action.run_keepsOrder fun _ => ih

theorem orderly_new : Program.new.Orderly where
  sound := sound_new
  held name id h := by
    rw [thisModule, Store.module, module?_new, Option.getD_some] at h
    cases h
  fields id x h := by
    have empty : Program.new.store.structs.slots.size = 0 := by decide +kernel
    rw [Store.struct?, Table.get?, Array.getElem?_eq_none (by omega)] at h
    cases h

end Actions

section Firsts

/-- Of several declarations of a name the first one wins, be it of an argument, of a local variable,
of a field, of an entry of an enumeration or of a global. What is declared has the type, the flags
and the initializer of its own line, and no name twice. Each later declaration is reported once, in
order, at its own place and, but for entries, with the place of the one that was kept. The fields of
a parent and the globals of the module count as earlier declarations; their own names are distinct
in any program that a parser comes to. -/
theorem declared_firsts (p : Program) :
    (∀ span name lines result body annots,
      EndsIf (p.CanTake lines) (makeFunction span name lines result body annots) p fun answer q =>
        ∃ vars, p.store.DeclaresLines q.store lines vars ∧
          (∀ id, answer = some id → ∃ f, q.store.function? id = some f ∧
            q.store.DeclaresFirst f.args vars) ∧
          p.ReportsRepeats q .argumentAlreadyDeclared Variable.span (some ·.span)
            (fun (v, first) => .argumentAlreadyDeclared v.name name (some first.span))
            (repeats Variable.name [] vars)) ∧
    (∀ span inScope lines,
      EndsIf (p.CanTake lines) (makeLet span inScope lines) p fun e q =>
        ∃ vars ids, p.store.DeclaresLines q.store lines vars ∧
          e = .ofNode span (.declare ids inScope) ∧ q.store.DeclaresFirst ids vars ∧
          p.ReportsRepeats q .localVariableAlreadyDeclared Variable.span (some ·.span)
            (fun (v, first) => .localVariableAlreadyDeclared v.name (some first.span))
            (repeats Variable.name [] vars)) ∧
    (∀ span name parent lines annots,
      EndsIf (p.CanDerive parent ∧ p.CanTake lines ∧ p.NeedsNoPod annots)
        (makeStruct span name parent lines annots) p fun answer q =>
        ∃ inherited vars, p.store.CopiesFields q.store (p.parentFields parent) inherited ∧
          p.store.DeclaresLines q.store lines vars ∧
          (∀ id, answer = some id → ∃ x, q.store.struct? id = some x ∧
            x.fields = fieldsBehind inherited vars ∧
            ((x.fields.map Field.name).Nodup ↔
              ((p.parentFields parent).map Field.name).Nodup)) ∧
          p.ReportsRepeats q .structureFieldAlreadyDeclared Field.span (some ·.span)
            (fun (f, first) => .structureFieldAlreadyDeclared name f.name (some first.span))
            (repeats Field.name inherited (vars.map Variable.toField))) ∧
    (∀ span name base entries,
      Ends (makeEnumeration span name base entries) p fun answer q =>
        (∀ id, answer = some id → ∃ e, q.store.enumeration? id = some e ∧
          e.DeclaresFirst entries) ∧
        p.ReportsRepeats q .enumerationValueAlreadyDeclared EntryLine.span (fun _ => none)
          (fun (entry, _) => .enumerationValueAlreadyDeclared name entry.name)
          (repeats EntryLine.name [] entries)) ∧
    (p.HoldsGlobals → ∀ lines,
      EndsIf (p.CanTake lines) (addGlobals lines) p fun _ q =>
        ∃ vars ids, p.store.DeclaresLines q.store lines vars ∧
          p.TakesGlobals q ids (firsts Variable.name p.globals vars) ∧
          ((p.globals ++ firsts Variable.name p.globals vars).map Variable.name).Nodup ∧
          p.ReportsRepeats q .globalVariableAlreadyDeclared Variable.span (some ·.span)
            (fun (v, first) => .globalVariableAlreadyDeclared v.name (some first.span))
            (repeats Variable.name p.globals vars)) ∧
    ∀ actions, Yields (perform actions) .new fun _ q => q.HoldsGlobals ∧
      ∀ parent, ((q.parentFields parent).map Field.name).Nodup := by
  refine ⟨?_, ?_, ?_, ?_, ?_, ?_⟩
  · intro span name lines result body annots
    refine (makeFunction_endsIf span name result body annots lines p).mono ?_
    rintro answer q ⟨vars, declares, firsts, -, reports⟩
    exact ⟨vars, declares, firsts, reports⟩
  · intro span inScope lines
    refine (makeLet_endsIf span inScope lines p).mono ?_
    rintro e q ⟨vars, ids, declares, he, firsts, -, reports⟩
    exact ⟨vars, ids, declares, he, firsts, reports⟩
  · intro span name parent lines annots
    refine (makeStruct_endsIf span name parent lines annots p).mono ?_
    rintro answer q ⟨inherited, vars, inherits, declares, declared, reports⟩
    refine ⟨inherited, vars, inherits, declares, fun id hid => ?_, reports⟩
    obtain ⟨x, hx, fields⟩ := declared.declared id hid
    exact ⟨x, hx, fields, by rw [fields, nodup_fieldsBehind_iff inherits]⟩
  · intro span name base entries
    refine (makeEnumeration_firsts span name base entries p).mono ?_
    rintro answer q ⟨firsts, -, reports⟩
    exact ⟨firsts, reports⟩
  · intro hp lines
    refine (addGlobals_endsIf hp lines).mono ?_
    rintro _ q ⟨vars, ids, declares, takes, reports⟩
    have nodup := (nodup_append_firsts_iff Variable.name p.globals vars).2 p.nodup_globals
    exact ⟨vars, ids, declares, takes, nodup, reports⟩
  · intro actions a q hrun
    have orderly := perform_keepsOrder actions _ a q hrun orderly_new
    exact ⟨orderly.holdsGlobals, orderly.nodup_parentFields⟩

def threeGlobals : List Line :=
  [{ names := [("a", .builtin), ("b", .builtin)], type := some .auto },
    { names := [("a", .builtin)], type := some .auto }]

/-- Of two globals of one name and one of another two are registered, and one is reported. -/
theorem declared_firsts_threeGlobals :
    Program.new.HoldsGlobals ∧ Program.new.CanTake threeGlobals ∧
    Ends (addGlobals threeGlobals) .new fun _ q => q.thisModule.globalOrder.length = 2 ∧
      q.errors.countP (·.kind = .globalVariableAlreadyDeclared) = 1 := by
  have holds : Program.new.HoldsGlobals := orderly_new.holdsGlobals
  have canTake : Program.new.CanTake threeGlobals := by
    unfold CanTake threeGlobals
    simp
  have module : Program.new.thisModule = { name := "" } := by
    rw [thisModule, Store.module, module?_new, Option.getD_some]
  have none : Program.new.globals = [] := by rw [globals, module]; rfl
  have names : namesOf threeGlobals = [(threeGlobals[0], "a", .builtin),
      (threeGlobals[0], "b", .builtin), (threeGlobals[1], "a", .builtin)] := rfl
  refine ⟨holds, canTake, ?_⟩
  obtain ⟨-, -, -, -, globals, -⟩ := declared_firsts .new
  refine ((globals holds threeGlobals).2 canTake).mono ?_
  rintro _ q ⟨vars, ids, declares, takes, -, reports⟩
  rw [Store.DeclaresLines, names] at declares
  simp only [List.forall₂_cons_left_iff, List.forall₂_nil_left_iff] at declares
  obtain ⟨_, _, ⟨x, rfl, -⟩, ⟨_, _, ⟨y, rfl, -⟩, ⟨_, _, ⟨z, rfl, -⟩, rfl, rfl⟩, rfl⟩, rfl⟩ :=
    declares
  obtain ⟨rest, herrors, other⟩ := reports.reported
  constructor
  · have lengths := takes.has.length_eq
    rw [takes.order, module, List.nil_append, lengths, none]
    rfl
  · have clean : rest.countP (·.kind = .globalVariableAlreadyDeclared) = 0 :=
      List.countP_eq_zero.2 (by simpa using other)
    rw [herrors, List.countP_append, clean, none]
    rfl

end Firsts

end Frontend.Program
