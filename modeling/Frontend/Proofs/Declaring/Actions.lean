import Frontend.Proofs.Declaring.Effects
import Frontend.Proofs.Layout.FieldCycles

/-!
# Actions register one declaration or report an error
-/

namespace Frontend.Program

variable {α β : Type} {p q : Program}

def Along (R : Program → Program → Prop) (work : ProgramM α) : Prop :=
  ∀ p, Yields work p fun _ q => R p q

namespace Along

variable {R : Program → Program → Prop}

theorem bind [IsTrans Program R] {work : ProgramM α} {f : α → ProgramM β} (h : Along R work)
    (hf : ∀ a, Along R (f a)) : Along R (work >>= f) :=
  fun p => (h p).bind fun a q hq => (hf a q).mono fun _ _ hr => IsTrans.trans p q _ hq hr

/-- Work that looks at the program first. -/
theorem bind_get {f : Program → ProgramM β} (h : ∀ p, Yields (f p) p fun _ q => R p q) :
    Along R (get >>= f) := fun p => .bind_run (a := p) rfl (h p)

theorem discard {work : ProgramM α} (h : Along R work) : Along R (discard work) :=
  fun p => (h p).discard.mono fun _ _ ⟨_, hq⟩ => hq

variable [Std.Refl R]

theorem pure (a : α) : Along R (Pure.pure a) := fun p => .pure (Std.Refl.refl p)

theorem get : Along R (get : ProgramM Program) := fun p => by
  intro _ _ hrun
  cases hrun
  exact Std.Refl.refl p

theorem forIn [IsTrans Program R] {f : α → PUnit → ProgramM (ForInStep PUnit)}
    (h : ∀ a, Along R (f a ⟨⟩)) (as : List α) : Along R (ForIn.forIn as PUnit.unit f) := by
  induction as with
  | nil => exact pure _
  | cons a as ih =>
    rw [List.forIn_cons]
    refine bind (h a) fun step => ?_
    cases step with
    | done _ => exact pure _
    | yield _ => exact ih

end Along

abbrev RegistersNothing (work : ProgramM α) : Prop := Along Grows work

theorem reported_refuses (problem : Problem) (span : Span) (p : Program) :
    Yields (reported problem span) p fun _ q => p.Refuses q := by
  intro _ _ hrun
  cases hrun
  exact refuses_report p _

theorem reported_registersNothing (problem : Problem) (span : Span) :
    RegistersNothing (reported problem span) :=
  fun p => (reported_refuses problem span p).mono fun _ _ h => h.toGrows

/-- A report for each of a list. -/
theorem reportEach_registersNothing (as : List α) (problem : α → Problem) (span : α → Span) :
    RegistersNothing (forIn as PUnit.unit fun a _ => do
      reported (problem a) (span a)
      return ForInStep.yield PUnit.unit) :=
  .forIn (fun _ => .bind (reported_registersNothing _ _) fun _ => .pure _) as

theorem takeLines_registersNothing (lines : List Line) : RegistersNothing (takeLines lines) := by
  refine .bind_get fun p => ?_
  cases h : p.store.lineVariables lines with
  | error fault => exact .throw
  | ok r =>
    have hadds := Store.addsVars_lineVariables (t := r.2) h
    refine .bind_run (a := ()) rfl (.pure ?_)
    refine grows_of_kept (.of_addsVars hadds) ?_
    rw [hadds.rest]

theorem addVariables_registersNothing (vs : List Variable) :
    RegistersNothing (addVariables vs) := by
  induction vs with
  | nil => exact .pure _
  | cons v vs ih =>
    refine .bind_get fun p => ?_
    refine .bind_run (a := ()) rfl ?_
    refine .bind (ih _) fun ids q hq => .pure (Grows.trans ?_ hq)
    exact grows_of_kept (.addVariable p.store v) rfl

theorem annotate_registersNothing (uses : List AnnotUse) (f : Function) :
    RegistersNothing (annotate uses f) := by
  induction uses generalizing f with
  | nil => exact .pure _
  | cons u uses ih =>
    refine .bind .get fun p => ?_
    dsimp only
    split
    · exact .bind (reported_registersNothing _ _) fun _ => ih f
    · split
      · exact ih _
      · refine .bind (fun p => ?_) fun _ => ih f
        intro _ _ hrun
        cases hrun
        exact grows_report p _

/-- The program's own module is there, and so are the annotations that are registered in it. -/
structure Sound (p : Program) : Prop where
  this : ∃ x, p.store.module? p.this = some x
  annots : ∀ key id, p.thisModule.annots.find? key = some id → ∃ a, p.store.annot? id = some a

/-- What the module of a program that has grown from `p` to `q` answers to a declaration: either it
takes an entry of the given sort, or nothing is registered. -/
structure Decided (p q : Program) (answer : Bool × Store) (P : Entry → Prop) : Prop where
  taken : answer.1 = true → ∃ entry, P entry ∧ p.Gains entry (q.inStore answer.2)
  refused : answer.1 = false → p.Grows (q.inStore answer.2)

theorem Decided.mono {answer : Bool × Store} {P P' : Entry → Prop} (h : p.Decided q answer P)
    (hP : ∀ entry, P entry → P' entry) : p.Decided q answer P' where
  taken yes := by
    obtain ⟨entry, hentry, hgains⟩ := h.taken yes
    exact ⟨entry, hP entry hentry, hgains⟩
  refused := h.refused

section Registrations

variable {key : String}

theorem register_eq (q : Program) (add : Store → ModuleId → Bool × Store) :
    q.register add = ((add q.store q.this).1, q.inStore (add q.store q.this).2) := rfl

theorem Sound.grows (hp : p.Sound) (h : p.Grows q) : q.Sound where
  this := by
    obtain ⟨x, hx⟩ := hp.this
    refine ⟨x, ?_⟩
    rw [h.this, Store.module?, h.modules]
    exact hx
  annots key id hid := by
    rw [h.thisModule] at hid
    obtain ⟨a, ha⟩ := hp.annots key id hid
    exact ⟨a, h.kept.annots id a ha⟩

/-- A declaration that is new may be stamped. -/
theorem Grows.advances {s : Store} (h : p.Grows q) (hs : p.store.KeptIn s) :
    p.Advances (q.inStore s) where
  frame := by
    rw [h.frame]
    rfl
  kept := hs
  reports := h.reports

theorem Grows.files {s : Store} (h : p.Grows q) (hs : p.store.KeptIn s)
    (hmodules : s.modules = q.store.modules) (entry : Entry) (hfree : entry.IsFree p.thisModule)
    (hnew : entry.IsNew p.store s p.thisModule.name) :
    p.Gains entry (q.inStore (s.modifyModule q.this entry.put)) :=
  { h.advances (s := s.modifyModule q.this entry.put) ⟨hs.functions, hs.structs, hs.enumerations,
      hs.annots, hs.vars, hs.rewriters⟩ with
    modules := by
      change s.modules.modify q.this entry.put = _
      rw [hmodules, h.modules, h.this]
    free := hfree
    isNew := by
      cases entry with
      | function =>
        obtain ⟨hnew, f, hf, hmodule, hname⟩ := hnew
        refine ⟨hnew, f, hf, hmodule, ?_⟩
        rw [← hname, Store.mangledFunction_eq, Store.mangledFunction_eq]
        exact congrArg _ ((Store.sameDeclarations_modifyModule _).signature f)
      | _ => exact hnew }

theorem find?_of_not_contains {β : Type} {m : NameMap β} {name : String}
    (h : ¬ m.contains name = true) : m.find? name = none := by
  unfold NameMap.contains at h
  simpa using h

/-- An entry is taken unless its key is. -/
theorem decided_entry {s : Store} {taken : Bool} (h : p.Grows q) (entry : Entry)
    (hfree : ¬ taken = true → entry.IsFree p.thisModule) (hs : p.store.KeptIn s)
    (hmodules : s.modules = q.store.modules)
    (hnew : entry.IsNew p.store s p.thisModule.name) :
    p.Decided q (if taken = true then (false, q.store)
      else (true, s.modifyModule q.this entry.put)) (· = entry) := by
  split
  · exact ⟨nofun, fun _ => h⟩
  · rename_i free
    exact ⟨fun _ => ⟨entry, rfl, h.files hs hmodules entry (hfree free) hnew⟩, nofun⟩

theorem decided_struct (h : p.Grows q) {id : StructId} {x : Struct}
    (hnew : p.store.struct? id = none) (hx : q.store.struct? id = some x) :
    p.Decided q (q.store.registerStruct q.this id) (· = .struct x.name id) := by
  have hname : ((q.store.struct? id).map (·.name)).getD "" = x.name := by rw [hx]; rfl
  have hthis : q.store.module q.this = p.thisModule := h.thisModule
  have hkept : p.store.KeptIn (q.store.modifyStruct id fun x =>
      { x with module? := some p.thisModule.name }) :=
    { h.kept with structs := h.kept.structs.modify hnew _ }
  unfold Store.registerStruct
  rw [hname, hthis]
  refine decided_entry h (.struct x.name id) find?_of_not_contains hkept rfl
    ⟨hnew, { x with module? := some p.thisModule.name }, ?_, rfl, rfl⟩
  exact (Table.get?_modify_self _ _ _).trans (congrArg (Option.map _) hx)

theorem decided_enumeration (h : p.Grows q) {id : EnumId} {e : Enumeration}
    (hnew : p.store.enumeration? id = none) (he : q.store.enumeration? id = some e) :
    p.Decided q (q.store.registerEnumeration q.this id) (· = .enumeration e.name id) := by
  have hname : ((q.store.enumeration? id).map (·.name)).getD "" = e.name := by rw [he]; rfl
  have hthis : q.store.module q.this = p.thisModule := h.thisModule
  have hkept : p.store.KeptIn (q.store.modifyEnumeration id fun e =>
      { e with module? := some p.thisModule.name }) :=
    { h.kept with enumerations := h.kept.enumerations.modify hnew _ }
  unfold Store.registerEnumeration
  rw [hname, hthis]
  refine decided_entry h (.enumeration e.name id) find?_of_not_contains hkept rfl
    ⟨hnew, { e with module? := some p.thisModule.name }, ?_, rfl, rfl⟩
  exact (Table.get?_modify_self _ _ _).trans (congrArg (Option.map _) he)

theorem decided_global (h : p.Grows q) {id : VarId} {v : Variable}
    (hnew : p.store.vars.get? id = none) (hv : q.store.vars.get? id = some v) :
    p.Decided q (q.store.registerVariable q.this id) (· = .global v.name id) := by
  have hname : (q.store.var id).name = v.name := by rw [Store.var, hv, Option.getD_some]
  have hthis : q.store.module q.this = p.thisModule := h.thisModule
  have hkept : p.store.KeptIn (q.store.modifyVariable id fun v =>
      { v with module? := some p.thisModule.name }) :=
    { h.kept with vars := h.kept.vars.modify hnew _ }
  unfold Store.registerVariable
  rw [hname, hthis]
  refine decided_entry h (.global v.name id) find?_of_not_contains hkept rfl
    ⟨hnew, { v with module? := some p.thisModule.name }, ?_, rfl, rfl⟩
  exact (Table.get?_modify_self _ _ _).trans (congrArg (Option.map _) hv)

theorem decided_alias (h : p.Grows q) (t : Ty) :
    p.Decided q (q.store.registerAlias q.this t) (· = .typeAlias t.aliasName t) := by
  have hthis : q.store.module q.this = p.thisModule := h.thisModule
  unfold Store.registerAlias
  rw [hthis]
  exact decided_entry h (.typeAlias t.aliasName t) find?_of_not_contains h.kept rfl rfl

theorem decided_annot (h : p.Grows q) (a : Annot) :
    let answer := q.store.registerAnnot q.this a
    p.Decided q answer fun entry => ∃ id, entry = .annot a.name id ∧ (answer.1 = true →
      answer.2.annot? id = some { a with module? := some p.thisModule.name }) := by
  have hthis : q.store.module q.this = p.thisModule := h.thisModule
  have hkept := h.kept.trans (.addAnnot q.store { a with module? := some p.thisModule.name })
  have hnew : (q.store.addAnnot { a with module? := some p.thisModule.name }).2.annot?
      q.store.annots.nextId = some { a with module? := some p.thisModule.name } :=
    Table.get?_push_nextId _ _
  unfold Store.registerAnnot
  rw [hthis]
  refine (decided_entry h (.annot a.name q.store.annots.nextId) find?_of_not_contains hkept rfl
    ⟨h.kept.annots.get?_eq_none (Table.get?_nextId _), _, hnew, rfl, rfl⟩).mono ?_
  rintro _ rfl
  refine ⟨_, rfl, ?_⟩
  split
  · exact nofun
  · exact fun _ => hnew

theorem decided_function (h : p.Grows q) (shelf : Shelf) {id : FunctionId} {f : Function}
    (hnew : p.store.function? id = none) (hf : q.store.function? id = some f) :
    p.Decided q (q.store.registerOn shelf q.this id) fun entry =>
      ∃ key, entry = .function shelf key id := by
  have hthis : q.store.module q.this = p.thisModule := h.thisModule
  have hkept : p.store.KeptIn (q.store.modifyFunction id (·.stamped p.thisModule.name)) :=
    { h.kept with functions := h.kept.functions.modify hnew _ }
  cases hfind : (shelf.of p.thisModule).find? (q.store.nameIn p.thisModule.name id) with
  | some other =>
    rw [Store.registerOn_of_taken hthis hfind]
    exact ⟨nofun, fun _ => { h.advances hkept with modules := h.modules }⟩
  | none =>
    rw [Store.registerOn_of_free hthis hfind]
    refine ⟨fun _ => ⟨.function shelf (q.store.nameIn p.thisModule.name id) id, ⟨_, rfl⟩, ?_⟩,
      nofun⟩
    refine h.files hkept rfl (.function shelf _ id) hfind
      ⟨hnew, f.stamped p.thisModule.name, ?_, rfl, ?_⟩
    · exact (Table.get?_modify_self _ _ _).trans (congrArg (Option.map _) hf)
    · rw [Store.mangledFunction_stamped, Store.nameIn_of hf,
        (Store.sameDeclarations_modifyFunction _).signature]

end Registrations

/-- An action that says whether it has declared something: if so it has registered one entry of the
given sort, and otherwise it has registered nothing and reported an error. -/
structure Outcome (p : Program) (declared : Bool) (P : Entry → Prop) (q : Program) : Prop where
  gains : declared = true → ∃ entry, P entry ∧ p.Gains entry q
  refuses : declared = false → p.Refuses q

namespace Outcome

variable {declared : Bool} {P P' : Entry → Prop}

theorem of_refuses (h : p.Refuses q) : p.Outcome false P q := ⟨nofun, fun _ => h⟩

theorem mono (h : p.Outcome declared P q) (hP : ∀ entry, P entry → P' entry) :
    p.Outcome declared P' q where
  gains yes := by
    obtain ⟨entry, hentry, hgains⟩ := h.gains yes
    exact ⟨entry, hP entry hentry, hgains⟩
  refuses := h.refuses

end Outcome

namespace Decided

variable {answer : Bool × Store} {P : Entry → Prop}

theorem outcome (h : p.Decided q answer P) (taken : answer.1 = true) :
    p.Outcome true P (q.inStore answer.2) := ⟨fun _ => h.taken taken, nofun⟩

/-- What is refused is reported. -/
theorem reported (h : p.Decided q answer P) (refused : ¬ answer.1 = true) {problem : Problem}
    {span : Span} : Yields (Program.reported problem span) (q.inStore answer.2) fun _ r =>
      p.Outcome false P r :=
  (reported_refuses _ _ _).mono fun _ _ hr =>
    .of_refuses ((h.refused (by simpa using refused)).refuses hr)

end Decided

section Declarations

variable {add : Store → ModuleId → Bool × Store} {problem : Problem} {span : Span} {st : Program}

/-- A declaration is registered; its id is the answer, unless it is refused. -/
theorem register_outcome {P : α → Entry → Prop} {a : α}
    (h : p.Decided q (add q.store q.this) (P a)) :
    Yields (do
      set (q.register add).2
      if (q.register add).1 = true then return some a
      reported problem span
      return none) st fun answer r =>
        p.Outcome answer.isSome (fun entry => ∃ a, answer = some a ∧ P a entry) r := by
  refine .bind_run (a := ⟨⟩) rfl ?_
  split
  · rename_i taken
    exact .pure ((h.outcome taken).mono fun entry hentry => ⟨a, rfl, hentry⟩)
  · rename_i refused
    refine (h.reported refused).bind fun _ r hr => .pure ?_
    exact .of_refuses (hr.refuses rfl)

/-- A declaration is registered, and work goes on if it is refused. -/
theorem register_reported (add : Store → ModuleId → Bool × Store) {P : Entry → Prop} {a : α}
    (h : p.Decided q (add q.store q.this) P) :
    Yields (do
      set (q.register add).2
      if (!(q.register add).1) = true then reported problem span
      return a) st fun answer r => answer = a ∧ p.Outcome (q.register add).1 P r := by
  refine .bind_run (a := ⟨⟩) rfl ?_
  rw [register_eq]
  dsimp only
  cases said : (add q.store q.this).1 with
  | true => exact .pure ⟨rfl, h.outcome said⟩
  | false => exact (h.reported (by simp [said])).bind fun _ r hr => .pure ⟨rfl, hr⟩

theorem makeFunction_outcome (span : Span) (name : String) (args : List Line) (result : Option Ty)
    (body : Expr) (annots : List AnnotUse) (p : Program) :
    Yields (makeFunction span name args result body annots) p fun answer q =>
      p.Outcome answer.isSome
        (fun entry => ∃ id, answer = some id ∧ ∃ shelf key, entry = .function shelf key id) q := by
  unfold makeFunction
  refine .bind (takeLines_registersNothing args p) fun vars p₁ h₁ => ?_
  dsimp only
  refine .bind (reportEach_registersNothing _ _ _ p₁) fun _ p₂ h₂ => ?_
  refine .bind (addVariables_registersNothing _ p₂) fun args p₃ h₃ => ?_
  refine .bind (annotate_registersNothing _ _ p₃) fun f p₄ h₄ => ?_
  refine .bind_run (a := p₄) rfl ?_
  have hgrows : p.Grows p₄ := h₁.trans (h₂.trans (h₃.trans h₄))
  have hnew : p.store.function? (p₄.store.addFunction f).1 = none :=
    hgrows.kept.functions.get?_eq_none (Table.get?_nextId _)
  have hf : (p₄.store.addFunction f).2.function? (p₄.store.addFunction f).1 = some f :=
    Table.get?_push_nextId _ _
  have hadded : p.Grows (p₄.inStore (p₄.store.addFunction f).2) :=
    hgrows.trans (grows_of_kept (.addFunction _ f) rfl)
  refine register_outcome (q := p₄.inStore (p₄.store.addFunction f).2)
    (P := fun id entry => ∃ shelf key, entry = .function shelf key id) ?_
  split
  · exact (decided_function hadded .generics hnew hf).mono fun entry hentry => ⟨_, hentry⟩
  · exact (decided_function hadded .functions hnew hf).mono fun entry hentry => ⟨_, hentry⟩

theorem makeEnumeration_outcome (span : Span) (name : String) (base : BaseType)
    (entries : List EntryLine) (p : Program) :
    Yields (makeEnumeration span name base entries) p fun answer q =>
      p.Outcome answer.isSome (fun entry => ∃ id, answer = some id ∧ entry = .enumeration name id)
        q := by
  unfold makeEnumeration
  dsimp only
  refine .bind (reportEach_registersNothing _ _ _ p) fun _ p₁ h₁ => ?_
  refine .bind_run (a := p₁) rfl ?_
  set e : Enumeration := Enumeration.resolveValues _ with he
  have hname : e.name = name := rfl
  have hnew : p.store.enumeration? (p₁.store.addEnumeration e).1 = none :=
    h₁.kept.enumerations.get?_eq_none (Table.get?_nextId _)
  have hadded : p.Grows (p₁.inStore (p₁.store.addEnumeration e).2) :=
    h₁.trans (grows_of_kept (.addEnumeration _ e) rfl)
  exact register_outcome (q := p₁.inStore (p₁.store.addEnumeration e).2)
    (P := fun id entry => entry = .enumeration name id)
    (decided_enumeration hadded hnew (Table.get?_push_nextId _ _))

theorem makeAlias_outcome (span : Span) (t : Ty) (p : Program) :
    Yields (makeAlias span t) p fun answer q =>
      p.Outcome answer (· = .typeAlias t.aliasName (t.withSpan span)) q := by
  unfold makeAlias
  refine .bind_run (a := p) rfl ?_
  have decided := decided_alias (.refl p) (t.withSpan span)
  refine (register_reported (fun s m => s.registerAlias m (t.withSpan span)) decided).mono ?_
  rintro _ q ⟨rfl, outcome⟩
  exact outcome

theorem addStruct_outcome (id : StructId) {x : Struct} (h : p.Grows q)
    (hnew : p.store.struct? id = none) (hx : q.store.struct? id = some x) :
    Yields (addStruct id x) q fun answer r => p.Outcome answer (· = .struct x.name id) r := by
  unfold addStruct
  refine .bind_run (a := q) rfl ?_
  refine (register_reported (fun s m => s.registerStruct m id) (decided_struct h hnew hx)).mono ?_
  rintro _ r ⟨rfl, outcome⟩
  exact outcome

/-- The entry declares the structure: under its name, as itself or as a handled type bound to it. -/
def DeclaresStruct (q : Program) (name : String) (id : StructId) (entry : Entry) : Prop :=
  entry = .struct name id ∨
    ∃ annot a, entry = .annot name annot ∧ q.store.annot? annot = some a ∧ a.bound? = some id

theorem bindAnnot_ok {s : Store} {a bound : Annot} {id : StructId} {arguments : Arguments}
    (h : s.bindAnnot a id arguments = .ok (.ok bound)) :
    bound.name = ((s.struct? id).map (·.name)).getD "" ∧ bound.bound? = some id := by
  unfold Store.bindAnnot at h
  split at h
  · dsimp only at h
    split at h
    · obtain ⟨pod, -, h⟩ := ok_of_bind h
      cases pod <;> cases h
      exact ⟨rfl, rfl⟩
    · cases h
      exact ⟨rfl, rfl⟩
  · cases h

theorem addStructHandle_outcome (id : StructId) {x : Struct} (a : Annot) (arguments : Arguments)
    (h : p.Grows q) (hx : q.store.struct? id = some x)
    (hfree : p.thisModule.annots.find? x.name = none) :
    Yields (addStructHandle id a arguments) q fun answer r =>
      p.Outcome answer (r.DeclaresStruct x.name id) r := by
  unfold addStructHandle
  refine .bind_run (a := q) rfl ?_
  dsimp only
  split
  · exact .bind_run (a := ⟨⟩) rfl (.pure (.of_refuses (h.refuses (refuses_report _ _))))
  · refine .bind (.lift (Q := fun b r => q.store.bindAnnot a id arguments = .ok b ∧ q = r)
      fun b hb => ⟨hb, rfl⟩) ?_
    rintro b _ ⟨hb, rfl⟩
    cases b with
    | error reason =>
      exact .bind_run (a := ⟨⟩) rfl (.pure (.of_refuses (h.refuses (refuses_report _ _))))
    | ok bound =>
      obtain ⟨hname, hbound⟩ := bindAnnot_ok hb
      rw [hx] at hname
      change bound.name = x.name at hname
      have taken : (q.store.registerAnnot q.this bound).1 = true := by
        unfold Store.registerAnnot
        have : (q.store.module q.this).annots.contains bound.name = false := by
          rw [NameMap.contains, hname, ← thisModule, h.thisModule, hfree, Option.isSome_none]
        rw [this]
        rfl
      have outcome := (decided_annot h bound).outcome taken
      refine .bind_run (a := ⟨⟩) rfl (.pure ?_)
      rw [register_eq, taken]
      refine outcome.mono fun entry hentry => ?_
      obtain ⟨annot, rfl, hannot⟩ := hentry
      exact .inr ⟨annot, _, by rw [hname], hannot taken, hbound⟩

/-- Unless a handled type of its name is there already. -/
theorem addHandle_outcome (id : StructId) {x : Struct} (u : AnnotUse) (hp : p.Sound)
    (h : p.Grows q) (hx : q.store.struct? id = some x) :
    Yields (addHandle id x u) q fun answer r =>
      p.Outcome answer (r.DeclaresStruct x.name id) r := by
  unfold addHandle
  refine .bind_run (a := q) rfl ?_
  split
  · refine .bind (reported_refuses _ _ q) fun _ r hr => .pure (.of_refuses (h.refuses hr))
  · rename_i hnone
    refine addStructHandle_outcome id _ _ h hx ?_
    rw [h.thisModule, Option.bind_eq_none_iff] at hnone
    rw [Option.eq_none_iff_forall_ne_some]
    intro annot hannot
    obtain ⟨a, ha⟩ := (hp.grows h).annots x.name annot (h.thisModule ▸ hannot)
    exact absurd ha (hnone annot hannot ▸ nofun)

theorem registerStruct_outcome {id : StructId} {x : Struct} (hp : p.Sound) (h : p.Grows q)
    (hnew : p.store.struct? id = none) (hx : q.store.struct? id = some x) :
    Yields (registerStruct id x) q fun answer r =>
      p.Outcome answer (r.DeclaresStruct x.name id) r := by
  unfold registerStruct
  refine .bind_run (a := q) rfl ?_
  dsimp only
  split
  · exact addHandle_outcome id _ hp h hx
  · exact (addStruct_outcome id h hnew hx).mono fun _ _ hr => hr.mono fun _ => .inl

theorem startStruct_registersNothing (span : Span) (name : String) (parent : Option StructId) :
    RegistersNothing (startStruct span name parent) := by
  cases parent with
  | none => exact .pure _
  | some parent =>
    refine .bind_get fun p => ?_
    cases h : p.store.deriveStruct name parent span with
    | error fault => exact .throw
    | ok r =>
      have hadds := addsVars_deriveStruct (t := r.2) h
      refine .bind_run (a := ()) rfl (.pure (grows_of_kept (.of_addsVars hadds) ?_))
      rw [hadds.rest]

theorem startStruct_name (span : Span) (name : String) (parent : Option StructId) :
    Yields (startStruct span name parent) p fun x _ => x.name = name := by
  cases parent with
  | none => exact .pure rfl
  | some parent =>
    refine .bind_run (a := p) rfl ?_
    cases h : p.store.deriveStruct name parent span with
    | error fault => exact .throw
    | ok r =>
      obtain ⟨_, _, hr⟩ := ok_of_bind h
      cases hr
      exact .bind_run (a := ()) rfl (.pure rfl)

theorem checkStructAnnots_yields (name : String) (annots : List AnnotUse) (p : Program) :
    Yields (checkStructAnnots name annots) p
      fun ok q => p.Grows q ∧ (ok = false → p.Refuses q) := by
  have refused (problem : Problem) (span : Span) : Yields (do
      reported problem span
      return false) p fun ok q => p.Grows q ∧ (ok = false → p.Refuses q) :=
    .bind (reported_refuses _ _ p) fun _ q hq => .pure ⟨hq.toGrows, fun _ => hq⟩
  unfold checkStructAnnots
  refine .bind_run (a := p) rfl ?_
  dsimp only
  split
  · exact refused _ _
  · split
    · exact .pure ⟨.refl p, nofun⟩
    · exact refused _ _
  · exact .pure ⟨.refl p, nofun⟩

theorem checkFieldCycles_yields (id : StructId) (p : Program) :
    Yields (checkFieldCycles id) p fun ok q =>
      q.store = p.store ∧ p.Grows q ∧ (ok = false → p.Refuses q) := by
  refine (Yields.of_ends (checkFieldCycles_spec p id)).mono fun ok q ⟨_, same, problem⟩ => ?_
  cases ok with
  | true =>
    rw [same rfl]
    exact ⟨rfl, .refl p, nofun⟩
  | false =>
    obtain ⟨steps, span, rfl⟩ := problem rfl
    exact ⟨rfl, grows_report p _, fun _ => refuses_report p _⟩

/-- A structure that contains itself is declared all the same. -/
theorem makeStruct_outcome (span : Span) (name : String) (parent : Option StructId)
    (lines : List Line) (annots : List AnnotUse) (hp : p.Sound) :
    Yields (makeStruct span name parent lines annots) p fun answer q =>
      p.Outcome answer.isSome (fun entry => ∃ id, answer = some id ∧ q.DeclaresStruct name id entry)
        q := by
  unfold makeStruct
  have started := (startStruct_registersNothing span name parent p).and
    (startStruct_name span name parent)
  refine started.bind fun x p₁ ⟨h₁, hname⟩ => ?_
  refine .bind (takeLines_registersNothing lines p₁) fun vars p₂ h₂ => ?_
  dsimp only
  refine .bind (reportEach_registersNothing _ _ _ p₂) fun _ p₃ h₃ => ?_
  have h₁₃ : p.Grows p₃ := h₁.trans (h₂.trans h₃)
  refine .bind (checkStructAnnots_yields name annots p₃) fun ok p₄ ⟨h₄, refused⟩ => ?_
  cases ok with
  | false => exact .pure (.of_refuses (h₁₃.refuses (refused rfl)))
  | true =>
    refine .bind_run (a := p₄) rfl (.bind_run (a := ⟨⟩) rfl ?_)
    set y : Struct := { x with fields := _, annots } with hy
    have hadded : p.Grows (p₄.inStore (p₄.store.addStruct y).2) :=
      h₁₃.trans (h₄.trans (grows_of_kept (.addStruct _ y) rfl))
    have hnew : p.store.struct? (p₄.store.addStruct y).1 = none :=
      (h₁₃.trans h₄).kept.structs.get?_eq_none (Table.get?_nextId _)
    have registered := registerStruct_outcome hp hadded hnew (Table.get?_push_nextId _ y)
    refine registered.bind fun added p₅ h₅ => ?_
    cases added with
    | false => exact .pure (.of_refuses (h₅.refuses rfl))
    | true =>
      obtain ⟨entry, hentry, hgains⟩ := h₅.gains rfl
      refine (checkFieldCycles_yields _ p₅).discard.bind fun _ p₆ ⟨_, hstore, h₆, _⟩ => .pure ?_
      refine ⟨fun _ => ⟨entry, ⟨_, rfl, ?_⟩, hgains.reported h₆ hstore⟩, nofun⟩
      rw [DeclaresStruct, hstore]
      exact hname ▸ hentry

end Declarations

end Frontend.Program
