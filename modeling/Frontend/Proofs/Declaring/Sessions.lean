import Frontend.Proofs.Declaring.Actions

/-!
# Sequences of actions

A parser performs actions one after the other. A program that starts sound stays so, and it has
failed exactly if errors have been reported.
-/

namespace Frontend.Program

variable {p q : Program}

inductive Action where
  | error (message : String) (span : Span) (kind : ErrorKind)
  | annotation (name : String) (span : Span)
  | function (span : Span) (name : String) (args : List Line) (result : Option Ty) (body : Expr)
    (annots : List AnnotUse)
  | locals (span : Span) (inScope : Bool) (lines : List Line)
  | globals (lines : List Line)
  | enumeration (span : Span) (name : String) (base : BaseType) (entries : List EntryLine)
  | struct (span : Span) (name : String) (parent : Option StructId) (lines : List Line)
    (annots : List AnnotUse)
  | fieldCycles (id : StructId)
  | typeAlias (span : Span) (t : Ty)
  | enumConstant (span : Span) (name value : String)
  | pipeLast (span : Span) (call argument : Expr)
  | pipeFirst (span : Span) (argument call : Expr)

def Action.run : Action → ProgramM Unit
  | error message span kind => modify (·.reportMessage message "" "" span kind)
  | annotation name span => discard <| findAnnotation name span
  | function span name args result body annots =>
    discard (makeFunction span name args result body annots)
  | locals span inScope lines => discard (makeLet span inScope lines)
  | globals lines => addGlobals lines
  | enumeration span name base entries => discard (makeEnumeration span name base entries)
  | struct span name parent lines annots => discard (makeStruct span name parent lines annots)
  | fieldCycles id => discard (checkFieldCycles id)
  | typeAlias span t => discard (makeAlias span t)
  | enumConstant span name value => discard (makeEnumConstant span name value)
  | pipeLast span call argument => discard (Program.pipeLast span call argument)
  | pipeFirst span argument call => discard (Program.pipeFirst span argument call)

def perform : List Action → ProgramM Unit
  | [] => return
  | action :: actions => do
    action.run
    perform actions

def Proceeds (p q : Program) : Prop := p.Sound → p.Advances q ∧ q.Sound

instance : Std.Refl Proceeds := ⟨fun p hp => ⟨.refl p, hp⟩⟩

instance : IsTrans Program Proceeds where
  trans _ _ _ h h' hp :=
    have ⟨hq, sound⟩ := h hp
    have ⟨hr, sound'⟩ := h' sound
    ⟨hq.trans hr, sound'⟩

theorem Grows.proceeds (h : p.Grows q) : p.Proceeds q := fun hp => ⟨h.toAdvances, hp.grows h⟩

theorem Along.proceeds {α : Type} {work : ProgramM α} (h : RegistersNothing work) :
    Along Proceeds work := fun p => (h p).mono fun _ _ => Grows.proceeds

theorem Gains.thisModule {entry : Entry} (h : p.Gains entry q) (hp : p.Sound) :
    q.store.module? p.this = some (entry.put p.thisModule) := by
  obtain ⟨x, hx⟩ := hp.this
  have same : p.thisModule = x := by rw [Program.thisModule, Store.module, hx, Option.getD_some]
  rw [Store.module?, h.modules, Table.get?_modify_self, same]
  exact congrArg (Option.map _) hx

/-- An entry for an annotation comes with the annotation. -/
theorem Gains.proceeds {entry : Entry} (h : p.Gains entry q) : p.Proceeds q := by
  intro hp
  have hthis := h.thisModule hp
  rw [← h.this] at hthis
  have hmodule : q.thisModule = entry.put p.thisModule := by
    rw [Program.thisModule, Store.module, hthis, Option.getD_some]
  refine ⟨h.toAdvances, ⟨_, hthis⟩, fun key id hid => ?_⟩
  have old (hid : p.thisModule.annots.find? key = some id) : ∃ a, q.store.annot? id = some a := by
    obtain ⟨a, ha⟩ := hp.annots key id hid
    exact ⟨a, h.kept.annots id a ha⟩
  rw [hmodule] at hid
  cases entry with
  | annot name new =>
    obtain ⟨-, a, ha, -⟩ := h.isNew
    by_cases same : key = name
    · rw [same] at hid
      cases (NameMap.find?_insert_self _ _ _).symm.trans hid
      exact ⟨a, ha⟩
    · exact old ((NameMap.find?_insert_of_ne _ _ same).symm.trans hid)
  | function shelf => cases shelf <;> exact old hid
  | _ => exact old hid

theorem Outcome.proceeds {declared : Bool} {P : Entry → Prop} (h : p.Outcome declared P q) :
    p.Proceeds q := by
  cases declared with
  | true =>
    obtain ⟨entry, -, hgains⟩ := h.gains rfl
    exact hgains.proceeds
  | false => exact (h.refuses rfl).toGrows.proceeds

theorem findAnnotation_registersNothing (name : String) (span : Span) :
    RegistersNothing <| findAnnotation name span := by
  refine .bind_get fun p => ?_
  split
  · exact .pure (.refl p)
  · exact Along.bind (reported_registersNothing _ _) (fun _ => .pure _) p
  · exact Along.bind (reported_registersNothing _ _) (fun _ => .pure _) p

theorem makeLet_registersNothing (span : Span) (inScope : Bool) (lines : List Line) :
    RegistersNothing (makeLet span inScope lines) := by
  refine .bind (takeLines_registersNothing lines) fun vars => ?_
  dsimp only
  refine .bind (reportEach_registersNothing _ _ _) fun _ => ?_
  exact .bind (addVariables_registersNothing _) fun _ => .pure _

theorem makeEnumConstant_registersNothing (span : Span) (enumeration value : String) :
    RegistersNothing (makeEnumConstant span enumeration value) := by
  have refused {α : Type} (problem : Problem) (span : Span) (a : α) : RegistersNothing (do
      reported problem span
      return a) := .bind (reported_registersNothing problem span) fun _ => .pure a
  refine .bind_get fun p => ?_
  split
  · exact refused _ _ _ p
  · dsimp only
    split
    · exact refused _ _ _ p
    · split
      · exact .throw
      · exact .pure (.refl p)
  · exact refused _ _ _ p

theorem pipe_registersNothing (span : Span) (call : Expr) (f : List Expr → List Expr) :
    RegistersNothing (pipe span call f) := by
  unfold pipe
  split
  · exact .pure _
  · exact .bind (reported_registersNothing _ _) fun _ => .pure _

/-- Each global is registered or reported. -/
theorem addGlobals_proceeds (lines : List Line) : Along Proceeds (addGlobals lines) := by
  refine Along.bind (R := Proceeds) (takeLines_registersNothing lines).proceeds fun vars => ?_
  refine .bind (.forIn (fun v p => ?_) vars) fun _ => .pure _
  have hadded : p.Grows (p.inStore (p.store.addVariable v).2) :=
    grows_of_kept (.addVariable p.store v) rfl
  have decided := decided_global hadded (Table.get?_nextId _) (Table.get?_push_nextId _ v)
  refine .bind_run (a := p) rfl ?_
  refine (register_reported (fun s m => s.registerVariable m p.store.vars.nextId) decided).mono ?_
  exact fun _ q ⟨_, outcome⟩ => outcome.proceeds

theorem Action.run_proceeds (action : Action) : Along Proceeds action.run := by
  cases action with
  | error message span kind =>
    intro p _ _ hrun
    cases hrun
    exact (grows_report p _).proceeds
  | annotation name span => exact (findAnnotation_registersNothing name span).discard.proceeds
  | function span name args result body annots =>
    have outcome := makeFunction_outcome span name args result body annots
    exact Along.discard fun p => (outcome p).mono fun _ _ => Outcome.proceeds
  | locals span inScope lines =>
    exact (makeLet_registersNothing span inScope lines).discard.proceeds
  | globals lines => exact addGlobals_proceeds lines
  | enumeration span name base entries =>
    have outcome := makeEnumeration_outcome span name base entries
    exact Along.discard fun p => (outcome p).mono fun _ _ => Outcome.proceeds
  | struct span name parent lines annots =>
    have outcome : Along Proceeds (makeStruct span name parent lines annots) :=
      fun p a q hrun hp =>
        (makeStruct_outcome span name parent lines annots hp a q hrun).proceeds hp
    exact outcome.discard
  | fieldCycles id =>
    have spec := checkFieldCycles_yields id
    exact Along.discard fun p => (spec p).mono fun _ _ h => h.2.1.proceeds
  | typeAlias span t =>
    exact Along.discard fun p => (makeAlias_outcome span t p).mono fun _ _ => Outcome.proceeds
  | enumConstant span name value =>
    exact (makeEnumConstant_registersNothing span name value).discard.proceeds
  | pipeLast span call argument => exact (pipe_registersNothing span call _).discard.proceeds
  | pipeFirst span argument call => exact (pipe_registersNothing span call _).discard.proceeds

theorem perform_proceeds (actions : List Action) : Along Proceeds (perform actions) := by
  induction actions with
  | nil => exact .pure _
  | cons action actions ih => exact Along.bind action.run_proceeds fun _ => ih

theorem module?_new : Program.new.store.module? Program.new.this = some { name := "" } :=
  Table.get?_push_nextId _ _

theorem sound_new : Program.new.Sound where
  this := ⟨_, module?_new⟩
  annots key id h := by
    rw [thisModule, Store.module, module?_new, Option.getD_some] at h
    cases h

theorem Reports.failed_iff (h : p.Reports q) (hp : p.failed = true ↔ p.errors ≠ []) :
    q.failed = true ↔ q.errors ≠ [] := by
  obtain ⟨es, herrors, hfailed⟩ := h
  rw [hfailed, herrors, Bool.or_eq_true, hp]
  cases es <;> simp

/-- Each of the actions that declare one thing registers one new entry in the program's own module
and changes nothing that was there, or reports an error and registers nothing. Whatever is done to a
program, errors are appended only, and it has failed exactly if there are any. -/
theorem actions_atomic (p : Program) (hp : p.Sound) :
    (∀ span name args result body annots,
      Yields (makeFunction span name args result body annots) p fun answer q =>
        p.Outcome answer.isSome
          (fun entry => ∃ id, answer = some id ∧ ∃ shelf key, entry = .function shelf key id) q) ∧
    (∀ span name base entries,
      Yields (makeEnumeration span name base entries) p fun answer q =>
        p.Outcome answer.isSome
          (fun entry => ∃ id, answer = some id ∧ entry = .enumeration name id) q) ∧
    (∀ span name parent lines annots,
      Yields (makeStruct span name parent lines annots) p fun answer q =>
        p.Outcome answer.isSome
          (fun entry => ∃ id, answer = some id ∧ q.DeclaresStruct name id entry) q) ∧
    (∀ span t, Yields (makeAlias span t) p fun answer q =>
      p.Outcome answer (· = .typeAlias t.aliasName (t.withSpan span)) q) ∧
    (∀ actions, Yields (perform actions) p fun _ q => p.Advances q ∧ q.Sound ∧
      ((p.failed = true ↔ p.errors ≠ []) → (q.failed = true ↔ q.errors ≠ []))) ∧
    ∀ actions, Yields (perform actions) Program.new fun _ q =>
      q.Sound ∧ (q.failed = true ↔ q.errors ≠ []) := by
  refine ⟨fun span name args result body annots => makeFunction_outcome span name args result body
    annots p, fun span name base entries => makeEnumeration_outcome span name base entries p,
    fun span name parent lines annots => makeStruct_outcome span name parent lines annots hp,
    fun span t => makeAlias_outcome span t p, fun actions _ q hrun => ?_,
    fun actions _ q hrun => ?_⟩
  · obtain ⟨advances, sound⟩ := perform_proceeds actions p _ q hrun hp
    exact ⟨advances, sound, advances.reports.failed_iff⟩
  · obtain ⟨advances, sound⟩ := perform_proceeds actions .new _ q hrun sound_new
    exact ⟨sound, advances.reports.failed_iff (by decide)⟩

/-- A structure that is declared twice. -/
theorem actions_atomic_structTwice :
    Program.new.Sound ∧
    Ends (makeStruct .builtin "S" none [] []) .new fun answer p =>
      (∃ entry, Program.new.Gains entry p) ∧ answer.isSome = true ∧
      Ends (makeStruct .builtin "S" none [] []) p fun answer q =>
        answer = none ∧ p.Refuses q := by
  have runs : Ends (makeStruct .builtin "S" none [] []) .new fun answer p =>
      answer.isSome = true ∧ Ends (makeStruct .builtin "S" none [] []) p fun answer _ =>
        answer = none := by
    decide +kernel
  obtain ⟨answer, p, hp, some, answer', q, hq, rfl⟩ := runs
  have first := (actions_atomic .new sound_new).2.2.1 .builtin "S" none [] [] answer p hp
  obtain ⟨entry, -, gains⟩ := first.gains some
  have sound := (gains.proceeds sound_new).2
  have second := (actions_atomic p sound).2.2.1 .builtin "S" none [] [] _ q hq
  exact ⟨sound_new, answer, p, hp, ⟨entry, gains⟩, some, _, q, hq, rfl, second.refuses rfl⟩

end Frontend.Program
