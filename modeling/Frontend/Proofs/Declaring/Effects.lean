import Frontend.Declare.Actions
import Frontend.Proofs.Copying.Growth
import Frontend.Proofs.Registration.Stamping

/-!
# What an action does to a program

Actions add declarations to the store, change none that were there, and report errors at the end of
the list. What they do besides is to put one entry into the program's own module, or nothing.
-/

namespace Frontend

namespace Table

variable {kind : ObjectKind} {α : Type} {s t u : Table kind α} {id : Id kind}

theorem partOf_refl (t : Table kind α) : t.PartOf t := fun _ _ h => h

theorem PartOf.trans (h : s.PartOf t) (h' : t.PartOf u) : s.PartOf u :=
  fun id a ha => h' id a (h id a ha)

theorem PartOf.get?_eq_none (h : s.PartOf t) (hid : t.get? id = none) : s.get? id = none := by
  cases ha : s.get? id with
  | none => rfl
  | some a =>
    rw [h id a ha] at hid
    cases hid

theorem partOf_push (t : Table kind α) (a : α) : t.PartOf (t.push a) := by
  intro id b hb
  have old : id ≠ t.nextId := by
    rintro rfl
    rw [t.get?_nextId] at hb
    cases hb
  rw [get?_push_of_ne _ _ old, hb]

/-- What was not there may change. -/
theorem PartOf.modify (h : s.PartOf t) (hid : s.get? id = none) (f : α → α) :
    s.PartOf (t.modify id f) := by
  intro other a ha
  have old : other ≠ id := by
    rintro rfl
    rw [hid] at ha
    cases ha
  rw [get?_modify_of_ne _ _ old, h other a ha]

end Table

namespace Store

variable {s t u : Store}

structure KeptIn (s t : Store) : Prop where
  functions : s.functions.PartOf t.functions
  structs : s.structs.PartOf t.structs
  enumerations : s.enumerations.PartOf t.enumerations
  annots : s.annots.PartOf t.annots
  vars : s.vars.PartOf t.vars
  rewriters : s.rewriters.PartOf t.rewriters

namespace KeptIn

theorem refl (s : Store) : s.KeptIn s :=
  ⟨s.functions.partOf_refl, s.structs.partOf_refl, s.enumerations.partOf_refl,
    s.annots.partOf_refl, s.vars.partOf_refl, s.rewriters.partOf_refl⟩

theorem trans (h : s.KeptIn t) (h' : t.KeptIn u) : s.KeptIn u where
  functions := h.functions.trans h'.functions
  structs := h.structs.trans h'.structs
  enumerations := h.enumerations.trans h'.enumerations
  annots := h.annots.trans h'.annots
  vars := h.vars.trans h'.vars
  rewriters := h.rewriters.trans h'.rewriters

theorem addFunction (s : Store) (f : Function) : s.KeptIn (s.addFunction f).2 :=
  { refl s with functions := s.functions.partOf_push f }

theorem addStruct (s : Store) (x : Struct) : s.KeptIn (s.addStruct x).2 :=
  { refl s with structs := s.structs.partOf_push x }

theorem addEnumeration (s : Store) (e : Enumeration) : s.KeptIn (s.addEnumeration e).2 :=
  { refl s with enumerations := s.enumerations.partOf_push e }

theorem addAnnot (s : Store) (a : Annot) : s.KeptIn (s.addAnnot a).2 :=
  { refl s with annots := s.annots.partOf_push a }

theorem addVariable (s : Store) (v : Variable) : s.KeptIn (s.addVariable v).2 :=
  { refl s with vars := s.vars.partOf_push v }

theorem of_addsVars (h : s.AddsVars t) : s.KeptIn t := by
  have vars : s.vars.PartOf t.vars := by
    intro id v hv
    rw [(h.old id (Table.lt_size_of_get? hv)).2, hv]
  rw [h.rest]
  exact { refl s with vars }

end KeptIn

theorem addsVars_namedVariables {line : Line} {names : List (String × Span)} {vars : List Variable}
    (h : s.namedVariables line names = .ok (vars, t)) : s.AddsVars t := by
  induction names generalizing s vars with
  | nil =>
    cases h
    exact .refl _
  | cons first names ih =>
    obtain ⟨r, hr, h⟩ := ok_of_bind h
    obtain ⟨r', hr', h⟩ := ok_of_bind h
    cases h
    exact (addsVars_copyOption hr).trans (ih hr')

theorem addsVars_lineVariables {lines : List Line} {vars : List Variable}
    (h : s.lineVariables lines = .ok (vars, t)) : s.AddsVars t := by
  induction lines generalizing s vars with
  | nil =>
    cases h
    exact .refl _
  | cons line lines ih =>
    obtain ⟨r, hr, h⟩ := ok_of_bind h
    obtain ⟨r', hr', h⟩ := ok_of_bind h
    cases h
    exact (addsVars_namedVariables hr).trans (ih hr')

end Store

inductive Entry where
  | function (shelf : Shelf) (key : String) (id : FunctionId)
  | struct (key : String) (id : StructId)
  | enumeration (key : String) (id : EnumId)
  | annot (key : String) (id : AnnotId)
  | global (key : String) (id : VarId)
  | typeAlias (key : String) (type : Ty)

namespace Entry

def put : Entry → Module → Module
  | function shelf key id, x => shelf.put ((shelf.of x).insert key id) x
  | struct key id, x =>
    { x with structs := x.structs.insert key id, structOrder := x.structOrder ++ [id] }
  | enumeration key id, x => { x with enumerations := x.enumerations.insert key id }
  | annot key id, x => { x with annots := x.annots.insert key id }
  | global key id, x =>
    { x with globals := x.globals.insert key id, globalOrder := x.globalOrder ++ [id] }
  | typeAlias key type, x => { x with aliases := x.aliases.insert key type }

def IsFree (x : Module) : Entry → Prop
  | function shelf key _ => (shelf.of x).find? key = none
  | struct key _ => x.structs.find? key = none
  | enumeration key _ => x.enumerations.find? key = none
  | annot key _ => x.annots.find? key = none
  | global key _ => x.globals.find? key = none
  | typeAlias key _ => x.aliases.find? key = none

/-- The entry is a declaration that is new in the second store, belongs to the module and has the
key for its name. -/
def IsNew (s t : Store) (module : String) : Entry → Prop
  | function _ key id => s.function? id = none ∧
    ∃ f, t.function? id = some f ∧ f.module? = some module ∧ t.mangledFunction f = key
  | struct key id => s.struct? id = none ∧
    ∃ x, t.struct? id = some x ∧ x.module? = some module ∧ x.name = key
  | enumeration key id => s.enumeration? id = none ∧
    ∃ e, t.enumeration? id = some e ∧ e.module? = some module ∧ e.name = key
  | annot key id => s.annot? id = none ∧
    ∃ a, t.annot? id = some a ∧ a.module? = some module ∧ a.name = key
  | global key id => s.vars.get? id = none ∧
    ∃ v, t.vars.get? id = some v ∧ v.module? = some module ∧ v.name = key
  | typeAlias key type => type.aliasName = key

end Entry

namespace Program

variable {p q r : Program}

/-- Errors are appended. The program has failed if there are any, or if it had failed before. -/
def Reports (p q : Program) : Prop :=
  ∃ es, q.errors = p.errors ++ es ∧ q.failed = (p.failed || !es.isEmpty)

/-- Declarations are added and errors are reported. -/
structure Advances (p q : Program) : Prop where
  frame : q = { p with store := q.store, errors := q.errors, hasFailed := q.hasFailed }
  kept : p.store.KeptIn q.store
  reports : p.Reports q

/-- Nothing is registered. -/
structure Grows (p q : Program) : Prop extends p.Advances q where
  modules : q.store.modules = p.store.modules

/-- Nothing is registered, and there is a new error. -/
structure Refuses (p q : Program) : Prop extends p.Grows q where
  error : q.errors ≠ p.errors

/-- One entry is registered, in the program's own module, and nothing else. -/
structure Gains (p : Program) (entry : Entry) (q : Program) : Prop extends p.Advances q where
  modules : q.store.modules = p.store.modules.modify p.this entry.put
  free : entry.IsFree p.thisModule
  isNew : entry.IsNew p.store q.store p.thisModule.name

theorem Reports.refl (p : Program) : p.Reports p := ⟨[], by simp⟩

theorem Reports.trans (h : p.Reports q) (h' : q.Reports r) : p.Reports r := by
  obtain ⟨es, herrors, hfailed⟩ := h
  obtain ⟨es', herrors', hfailed'⟩ := h'
  refine ⟨es ++ es', by rw [herrors', herrors, List.append_assoc], ?_⟩
  rw [hfailed', hfailed]
  cases es <;> simp

theorem Advances.refl (p : Program) : p.Advances p := ⟨rfl, .refl _, .refl p⟩

theorem Advances.trans (h : p.Advances q) (h' : q.Advances r) : p.Advances r where
  frame := by
    rw [h'.frame, h.frame]
  kept := h.kept.trans h'.kept
  reports := h.reports.trans h'.reports

theorem Advances.this (h : p.Advances q) : q.this = p.this := by rw [h.frame]

theorem Grows.refl (p : Program) : p.Grows p := { Advances.refl p with modules := rfl }

theorem Grows.trans (h : p.Grows q) (h' : q.Grows r) : p.Grows r :=
  { h.toAdvances.trans h'.toAdvances with modules := h'.modules.trans h.modules }

instance : Std.Refl Grows := ⟨Grows.refl⟩

instance : IsTrans Program Grows := ⟨fun _ _ _ => Grows.trans⟩

theorem Grows.thisModule (h : p.Grows q) : q.thisModule = p.thisModule := by
  unfold Program.thisModule Store.module Store.module?
  rw [h.this, h.modules]

theorem grows_report (p : Program) (e : CompileError) : p.Grows (p.report e) where
  frame := rfl
  kept := .refl _
  reports := ⟨[e], rfl, by simp [failed, report]⟩
  modules := rfl

theorem refuses_report (p : Program) (e : CompileError) : p.Refuses (p.report e) :=
  { grows_report p e with error := by simp [report] }

theorem grows_of_kept {s : Store} (h : p.store.KeptIn s) (hmodules : s.modules = p.store.modules) :
    p.Grows (p.inStore s) where
  frame := rfl
  kept := h
  reports := .refl p
  modules := hmodules

/-- Errors stay when more are appended. -/
theorem Grows.refuses (h : p.Grows q) (h' : q.Refuses r) : p.Refuses r :=
  { h.trans h'.toGrows with
    error := by
      obtain ⟨es, herrors, -⟩ := h.reports
      obtain ⟨es', herrors', -⟩ := h'.reports
      intro same
      have hnil : es ++ es' = [] := by
        rw [herrors', herrors, List.append_assoc] at same
        exact List.append_right_eq_self.1 same
      rw [(List.append_eq_nil_iff.1 hnil).2, List.append_nil] at herrors'
      exact h'.error herrors' }

theorem Grows.gains {entry : Entry} (h : p.Grows q) (h' : q.Gains entry r) : p.Gains entry r :=
  { h.toAdvances.trans h'.toAdvances with
    modules := by rw [h'.modules, h.modules, h.this]
    free := h.thisModule ▸ h'.free
    isNew := by
      have hnew := h'.isNew
      rw [h.thisModule] at hnew
      cases entry with
      | function => exact ⟨h.kept.functions.get?_eq_none hnew.1, hnew.2⟩
      | struct => exact ⟨h.kept.structs.get?_eq_none hnew.1, hnew.2⟩
      | enumeration => exact ⟨h.kept.enumerations.get?_eq_none hnew.1, hnew.2⟩
      | annot => exact ⟨h.kept.annots.get?_eq_none hnew.1, hnew.2⟩
      | global => exact ⟨h.kept.vars.get?_eq_none hnew.1, hnew.2⟩
      | typeAlias => exact hnew }

/-- Errors that are reported afterwards do not matter. -/
theorem Gains.reported {entry : Entry} (h : p.Gains entry q) (h' : q.Grows r)
    (hstore : r.store = q.store) : p.Gains entry r :=
  { h.toAdvances.trans h'.toAdvances with
    modules := by rw [hstore, h.modules]
    free := h.free
    isNew := hstore ▸ h.isNew }

end Program

end Frontend
