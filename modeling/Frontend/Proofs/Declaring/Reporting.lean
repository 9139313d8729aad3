import Frontend.Proofs.Declaring.Lines
import Frontend.Proofs.Declaring.Storage

/-!
# Which errors are reported

Each step of an action that registers something reports errors of its own kinds only, and leaves
variables and the fields of structures alone. So an error of another kind was reported by another
step.
-/

namespace Frontend

namespace CompileError

/-- The error points to a name that was declared before, and to where that was if the place is
known. Builtin places are left out. -/
structure Redeclares (e : CompileError) (kind : ErrorKind) (span : Span) (previous : Option Span) :
    Prop where
  kind : e.kind = kind
  location : e.location = if span.isBuiltin then none else some span
  previous : e.boundNotes =
    (previous.filter fun s => !s.isBuiltin).toList.map fun s => (s, "previously declared here")

theorem kind_withPrevious (e : CompileError) (previous : Option Span) :
    (e.withPrevious previous).kind = e.kind := by
  unfold withPrevious withBoundNote
  cases previous with
  | none => rfl
  | some s => dsimp only; split <;> rfl

theorem redeclares_withPrevious (e : CompileError) (span : Span) (previous : Option Span)
    (notes : e.boundNotes = []) :
    ((e.withPrevious previous).withLocation span).Redeclares e.kind span previous where
  kind := e.kind_withPrevious previous
  location := rfl
  previous := by
    change (e.withPrevious previous).boundNotes = _
    unfold withPrevious withBoundNote
    cases previous with
    | none => exact notes
    | some s =>
      dsimp only
      rw [Option.filter_some]
      cases s.isBuiltin with
      | true => exact notes
      | false => simp [notes]

end CompileError

namespace Annot

def requiresPod (a : Annot) (arguments : Arguments) : Bool :=
  match a.kind with
  | .structType requires _ => requires || arguments.getBool "pod" false
  | _ => false

/-- Annotations do not change the arguments of a function. -/
theorem args_apply {a : Annot} {f g : Function} {arguments : Arguments}
    (h : a.apply f arguments = .ok g) : g.args = f.args := by
  unfold apply at h
  split at h
  · cases h
  · split at h
    all_goals first
      | (cases h; rfl)
      | (split at h <;> cases h; rfl)

end Annot

namespace Store

structure Spares (s t : Store) : Prop where
  vars : t.vars = s.vars
  fields : ∀ id, (t.struct? id).map Struct.fields = (s.struct? id).map Struct.fields

namespace Spares

variable {s t u : Store}

theorem refl (s : Store) : s.Spares s := ⟨rfl, fun _ => rfl⟩

theorem trans (h : s.Spares t) (h' : t.Spares u) : s.Spares u :=
  ⟨h'.vars.trans h.vars, fun id => (h'.fields id).trans (h.fields id)⟩

theorem of_eq (h : t = s) : s.Spares t := h ▸ refl s

end Spares

theorem spares_registerStruct (s : Store) (m : ModuleId) (id : StructId) :
    s.Spares (s.registerStruct m id).2 := by
  unfold registerStruct
  dsimp only
  split
  · exact .refl s
  · refine ⟨rfl, fun other => ?_⟩
    change ((s.modifyStruct id _).struct? other).map Struct.fields = _
    by_cases same : other = id
    · subst same
      refine (congrArg (Option.map Struct.fields) (Table.get?_modify_self _ _ _)).trans ?_
      rw [Option.map_map]
      rfl
    · exact congrArg (Option.map Struct.fields) (Table.get?_modify_of_ne _ _ same)

theorem spares_registerAnnot (s : Store) (m : ModuleId) (a : Annot) :
    s.Spares (s.registerAnnot m a).2 := by
  unfold registerAnnot
  dsimp only
  split <;> exact ⟨rfl, fun _ => rfl⟩

theorem structs_registerEnumeration (s : Store) (m : ModuleId) (id : EnumId) :
    (s.registerEnumeration m id).2.structs = s.structs := by
  unfold registerEnumeration
  dsimp only
  split <;> rfl

theorem registerOn_spares (s : Store) (shelf : Shelf) (m : ModuleId) (id : FunctionId) :
    (s.registerOn shelf m id).2.vars = s.vars ∧
      (s.registerOn shelf m id).2.structs = s.structs := by
  cases hfind : (shelf.of (s.module m)).find? (s.nameIn (s.module m).name id) with
  | some other => rw [registerOn_of_taken rfl hfind]; exact ⟨rfl, rfl⟩
  | none => rw [registerOn_of_free rfl hfind]; exact ⟨rfl, rfl⟩

end Store

namespace Program

variable {α : Type} {k : ErrorKind} {p q r : Program}

def ReportsOther (k : ErrorKind) (p q : Program) : Prop :=
  ∃ es, q.errors = p.errors ++ es ∧ ∀ e ∈ es, e.kind ≠ k

structure Spares (k : ErrorKind) (p q : Program) : Prop where
  store : p.store.Spares q.store
  reports : p.ReportsOther k q

structure OnlyReports (k : ErrorKind) (p q : Program) : Prop where
  store : q.store = p.store
  this : q.this = p.this
  reports : p.ReportsOther k q

namespace ReportsOther

theorem of_eq (h : q.errors = p.errors) : p.ReportsOther k q :=
  ⟨[], by rw [h, List.append_nil], List.forall_mem_nil _⟩

theorem trans (h : p.ReportsOther k q) (h' : q.ReportsOther k r) : p.ReportsOther k r := by
  obtain ⟨es, herrors, other⟩ := h
  obtain ⟨es', herrors', other'⟩ := h'
  exact ⟨es ++ es', by rw [herrors', herrors, List.append_assoc],
    List.forall_mem_append.2 ⟨other, other'⟩⟩

theorem report (p : Program) {e : CompileError} (h : e.kind ≠ k) : p.ReportsOther k (p.report e) :=
  ⟨[e], rfl, List.forall_mem_singleton.2 h⟩

end ReportsOther

theorem Spares.trans (h : p.Spares k q) (h' : q.Spares k r) : p.Spares k r :=
  ⟨h.store.trans h'.store, h.reports.trans h'.reports⟩

namespace OnlyReports

theorem refl (p : Program) : p.OnlyReports k p := ⟨rfl, rfl, .of_eq rfl⟩

theorem trans (h : p.OnlyReports k q) (h' : q.OnlyReports k r) : p.OnlyReports k r :=
  ⟨h'.store.trans h.store, h'.this.trans h.this, h.reports.trans h'.reports⟩

theorem report (p : Program) {e : CompileError} (h : e.kind ≠ k) : p.OnlyReports k (p.report e) :=
  ⟨rfl, rfl, .report p h⟩

theorem spares (h : p.OnlyReports k q) : p.Spares k q :=
  ⟨.of_eq h.store, h.reports⟩

end OnlyReports

theorem spares_inStore {s : Store} (h : p.store.Spares s) : p.Spares k (p.inStore s) :=
  ⟨h, .of_eq rfl⟩

section Registering

variable {add : Store → ModuleId → Bool × Store} {problem : Problem} {a : α} {span : Span}

theorem reported_ends (problem : Problem) (span : Span) (h : problem.phrase.kind ≠ k)
    (p : Program) : Ends (reported problem span) p fun _ q => p.OnlyReports k q :=
  ⟨⟨⟩, _, rfl, .report p h⟩

theorem invalidAnnot_ends (hk : k ≠ .invalidAnnot) (message annot : String) (span : Span)
    (p : Program) :
    Ends (reported (.invalidAnnot message annot) span) p fun _ q => p.OnlyReports k q :=
  reported_ends (.invalidAnnot message annot) span hk.symm p

/-- Something is registered, and if it is refused there is a report. -/
theorem register_reports (h : problem.phrase.kind ≠ k) :
    Ends (do
      set (q.register add).2
      if (q.register add).1 = true then return some a
      reported problem span
      return none) p fun answer r =>
        r.store = (add q.store q.this).2 ∧ q.ReportsOther k r ∧ ∀ b, answer = some b → b = a := by
  refine .bind_run (a := ⟨⟩) rfl ?_
  split
  · exact .pure ⟨rfl, .of_eq rfl, fun b hb => (Option.some.inj hb).symm⟩
  · refine (reported_ends problem span h _).bind fun _ r hr => .pure ⟨hr.store, ?_, nofun⟩
    exact ReportsOther.trans (.of_eq rfl) hr.reports

end Registering

theorem annotate_ends (hk : k ≠ .invalidAnnot) (uses : List AnnotUse) (f : Function)
    (p : Program) : Ends (annotate uses f) p fun g q => g.args = f.args ∧ p.OnlyReports k q := by
  induction uses generalizing f p with
  | nil => exact .pure ⟨rfl, .refl p⟩
  | cons u uses ih =>
    refine .bind_run (a := p) rfl ?_
    dsimp only
    split
    · refine (invalidAnnot_ends hk _ _ _ p).bind fun _ q hq => ?_
      exact (ih f q).mono fun g r ⟨args, hr⟩ => ⟨args, hq.trans hr⟩
    · split
      · rename_i g happly
        have kept : g.args = f.args := Annot.args_apply happly
        exact (ih _ p).mono fun _ r ⟨args, hr⟩ => ⟨args.trans kept, hr⟩
      · refine .bind_run (a := ⟨⟩) rfl ?_
        refine (ih f _).mono fun g r ⟨args, hr⟩ => ⟨args, OnlyReports.trans ?_ hr⟩
        exact .report p hk.symm

section Structures

/-- No annotation asks for plain data, so that nothing has to be known of other structures. -/
def NeedsNoPod (p : Program) (annots : List AnnotUse) : Prop :=
  ∀ u ∈ annots, ((p.store.annot? u.annot).getD default).requiresPod u.arguments = false

variable {id : StructId} {x : Struct}

theorem kind_structureAlreadyDeclared (name : String) (previous : Option Span) :
    (Problem.structureAlreadyDeclared name previous).phrase.kind = .structureAlreadyDeclared :=
  CompileError.kind_withPrevious _ previous

theorem checkStructAnnots_ends (hk : k ≠ .invalidAnnot) (name : String) (annots : List AnnotUse)
    (p : Program) : Ends (checkStructAnnots name annots) p fun _ q => p.OnlyReports k q := by
  have refused (message annot : String) (span : Span) : Ends (do
      reported (.invalidAnnot message annot) span
      return false) p fun _ q => p.OnlyReports k q :=
    (invalidAnnot_ends hk _ _ _ p).bind fun _ q hq => .pure hq
  unfold checkStructAnnots
  refine .bind_run (a := p) rfl ?_
  dsimp only
  split
  · exact refused _ _ _
  · split
    · exact .pure (.refl p)
    · exact refused _ _ _
  · exact .pure (.refl p)

theorem addStruct_ends (hk : k ≠ .structureAlreadyDeclared) (id : StructId) (x : Struct)
    (p : Program) : Ends (addStruct id x) p fun _ q => p.Spares k q := by
  unfold addStruct
  refine .bind_run (a := p) rfl (.bind_run (a := ⟨⟩) rfl ?_)
  have registered : p.Spares k (p.register fun s m => s.registerStruct m id).2 :=
    spares_inStore (Store.spares_registerStruct _ _ _)
  dsimp only
  split
  · refine (reported_ends _ _ ?_ _).bind fun _ q hq =>
      .pure (registered.trans hq.spares)
    exact kind_structureAlreadyDeclared _ _ ▸ hk.symm
  · exact .pure registered

theorem bindAnnot_ends {s : Store} {a : Annot} {arguments : Arguments}
    (h : a.requiresPod arguments = false) : ∃ r, s.bindAnnot a id arguments = .ok r := by
  unfold Annot.requiresPod at h
  unfold Store.bindAnnot
  split
  · rename_i requires bound hkind
    rw [hkind] at h
    dsimp only at h ⊢
    rw [h]
    exact ⟨_, rfl⟩
  · exact ⟨_, rfl⟩

/-- A handled type is registered or refused. It may not come to an end if the structure has to be
plain data. -/
theorem addStructHandle_endsIf (hk : k ≠ .invalidAnnot) (a : Annot) (arguments : Arguments) :
    EndsIf (a.requiresPod arguments = false) (addStructHandle id a arguments) p
      fun _ q => p.Spares k q := by
  have refused {message annot extra : String} {span : Span} : Ends (do
      modify (·.report (((Problem.invalidAnnot message annot).report span).withExtra extra))
      return false : ProgramM Bool) p fun _ q => p.Spares k q :=
    .bind_run (a := ⟨⟩) rfl (.pure (OnlyReports.report p hk.symm).spares)
  refine .bind_run (a := p) rfl ?_
  dsimp only
  split
  · exact .of_ends (.bind_run (a := ⟨⟩) rfl (.pure (OnlyReports.report p hk.symm).spares))
  · refine .bind (.lift (Q := fun _ q => p = q) (fun _ _ => rfl) bindAnnot_ends) ?_
    rintro bound _ rfl
    cases bound with
    | error reason => exact .of_ends refused
    | ok bound =>
      refine .of_ends (.bind_run (a := ⟨⟩) rfl (.pure (spares_inStore ?_)))
      exact Store.spares_registerAnnot _ _ _

theorem addHandle_endsIf (hk : k ≠ .invalidAnnot) (hk' : k ≠ .structureAlreadyDeclared)
    (u : AnnotUse) :
    EndsIf (((p.store.annot? u.annot).getD default).requiresPod u.arguments = false)
      (addHandle id x u) p fun _ q => p.Spares k q := by
  refine .bind_run (a := p) rfl ?_
  split
  · refine .of_ends ((reported_ends _ _ ?_ p).bind fun _ q hq => .pure hq.spares)
    exact kind_structureAlreadyDeclared _ _ ▸ hk'.symm
  · exact addStructHandle_endsIf hk _ _

theorem registerStruct_endsIf (hk : k ≠ .invalidAnnot) (hk' : k ≠ .structureAlreadyDeclared)
    (id : StructId) (x : Struct) (p : Program) :
    EndsIf (p.NeedsNoPod x.annots) (registerStruct id x) p fun _ q => p.Spares k q := by
  refine .bind_run (a := p) rfl ?_
  dsimp only
  split
  · rename_i u hu
    refine (addHandle_endsIf hk hk' u).under fun h => h u ?_
    exact List.mem_of_mem_head? (Option.filter_eq_some_iff.1 hu).1
  · exact .of_ends (addStruct_ends hk' id x p)

theorem checkFieldCycles_ends (hk : k ≠ .structureFieldCycle) (id : StructId) (p : Program) :
    Ends (checkFieldCycles id) p fun _ q => p.OnlyReports k q := by
  refine (checkFieldCycles_spec p id).mono fun ok q ⟨_, same, problem⟩ => ?_
  cases ok with
  | true =>
    rw [same rfl]
    exact .refl p
  | false =>
    obtain ⟨steps, span, rfl⟩ := problem rfl
    exact .report p hk.symm

end Structures

end Program

end Frontend
