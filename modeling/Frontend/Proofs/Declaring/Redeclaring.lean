import Frontend.Proofs.Declaring.FirstOfName
import Frontend.Proofs.Declaring.Reporting

/-!
# The first declaration of a name wins

Arguments, local variables, globals, entries of enumerations and fields of structures: of several
declarations of a name the first one is declared, just as it stands in its line, and each later one
is reported at its place.
-/

namespace Frontend

theorem Store.Has.mono {s t : Store} {ids : List VarId} {vars : List Variable} (h : s.Has ids vars)
    (later : s.vars.PartOf t.vars) : t.Has ids vars :=
  List.Forall₂.imp (fun id v hv => later id v hv) h

theorem Store.Has.map_name {s : Store} {ids : List VarId} {vars : List Variable}
    (h : s.Has ids vars) : ids.map (fun id => (s.var id).name) = vars.map Variable.name := by
  induction h with
  | nil => rfl
  | cons hv _ ih => rw [List.map_cons, List.map_cons, ih, Store.var, hv, Option.getD_some]

/-- The variables are the first ones of their names, so that these are distinct. -/
structure Store.DeclaresFirst (s : Store) (ids : List VarId) (vars : List Variable) : Prop where
  has : s.Has ids (firsts Variable.name [] vars)
  distinct : (ids.map fun id => (s.var id).name).Nodup

theorem Store.Has.declaresFirst {s : Store} {ids : List VarId} {vars : List Variable}
    (h : s.Has ids (firsts Variable.name [] vars)) : s.DeclaresFirst ids vars :=
  ⟨h, h.map_name ▸ nodup_firsts Variable.name [] vars⟩

/-- The entries of the enumeration are the first ones of their names, each with its value if it has
one, so that the names are distinct. -/
structure Enumeration.DeclaresFirst (e : Enumeration) (lines : List EntryLine) : Prop where
  values : (firsts EntryLine.name [] lines).Forall₂ (fun line entry =>
    entry.1 = line.name ∧ ∀ value, line.value = some value → entry.2 = some value) e.entries
  distinct : (e.entries.map Prod.fst).Nodup

theorem Enumeration.forall₂_numberFrom (base : BaseType) (next : Int64) (lines : List EntryLine) :
    lines.Forall₂ (fun line entry =>
      entry.1 = line.name ∧ ∀ value, line.value = some value → entry.2 = some value)
      (numberFrom base next (lines.map fun x => (x.name, x.value))) := by
  induction lines generalizing next with
  | nil => exact .nil
  | cons line lines ih =>
    obtain ⟨name, value, span⟩ := line
    cases value with
    | none => exact .cons ⟨rfl, nofun⟩ (ih _)
    | some value => exact .cons ⟨rfl, fun _ h => h⟩ (ih _)

namespace Program

variable {α : Type} {p q r : Program} {lines : List Line} {k : ErrorKind}

/-- Each repeated declaration is reported at its place, in order and with the place of the first one
if that is told. No other error of the kind is. -/
structure ReportsRepeats (p q : Program) (kind : ErrorKind) (span : α → Span)
    (previous : α → Option Span) (problem : α × α → Problem) (repeated : List (α × α)) : Prop where
  points : ∀ r ∈ repeated, ((problem r).report (span r.1)).Redeclares kind (span r.1) (previous r.2)
  reported : ∃ rest,
    q.errors = p.errors ++ repeated.map (fun r => (problem r).report (span r.1)) ++ rest ∧
      ∀ e ∈ rest, e.kind ≠ kind

theorem ReportsRepeats.later {span : α → Span} {previous : α → Option Span}
    {problem : α × α → Problem} {repeated : List (α × α)}
    (h : p.ReportsRepeats q k span previous problem repeated) (other : q.ReportsOther k r) :
    p.ReportsRepeats r k span previous problem repeated := by
  obtain ⟨rest, herrors, hrest⟩ := h.reported
  obtain ⟨es, herrors', hes⟩ := other
  exact ⟨h.points, rest ++ es, by rw [herrors', herrors, List.append_assoc _ rest es],
    List.forall_mem_append.2 ⟨hrest, hes⟩⟩

theorem reportRepeats_ends (span : α → Span) (previous : α → Option Span)
    (problem : α × α → Problem)
    (points : ∀ r, ((problem r).report (span r.1)).Redeclares k (span r.1) (previous r.2))
    (repeated : List (α × α)) (p : Program) :
    Ends (forIn repeated PUnit.unit fun r _ => do
      reported (problem r) (span r.1)
      return ForInStep.yield PUnit.unit) p fun _ q => q.store = p.store ∧ q.this = p.this ∧
        p.ReportsRepeats q k span previous problem repeated := by
  refine (reportEach_ends repeated problem (fun r => span r.1) p).mono ?_
  rintro _ q ⟨hstore, hthis, herrors⟩
  exact ⟨hstore, hthis, fun r _ => points r, [], by rw [herrors, List.append_nil],
    List.forall_mem_nil _⟩

section Locals

/-- The variables of a `let` are the first ones of their names. -/
theorem makeLet_endsIf (span : Span) (inScope : Bool) (lines : List Line) (p : Program) :
    EndsIf (p.CanTake lines) (makeLet span inScope lines) p fun e q => ∃ vars ids,
      p.store.DeclaresLines q.store lines vars ∧ e = .ofNode span (.declare ids inScope) ∧
      q.store.DeclaresFirst ids vars ∧ q.store.structs = p.store.structs ∧
      p.ReportsRepeats q .localVariableAlreadyDeclared Variable.span (some ·.span)
        (fun (v, first) => .localVariableAlreadyDeclared v.name (some first.span))
        (repeats Variable.name [] vars) := by
  refine (takeLines_endsIf lines p).bind ?_
  rintro vars _ ⟨t, rfl, adds, declares⟩
  refine .of_ends ?_
  dsimp only
  rw [firstOfName_eq, List.nil_append]
  refine (reportRepeats_ends Variable.span (some ·.span)
    (fun (v, first) => .localVariableAlreadyDeclared v.name (some first.span))
    (fun r => CompileError.redeclares_withPrevious _ r.1.span (some r.2.span) rfl) _ _).bind ?_
  rintro _ p₂ ⟨hstore, -, reports⟩
  refine (addVariables_ends _ p₂).bind ?_
  rintro ids _ ⟨u, rfl, adds', has⟩
  rw [hstore] at adds'
  have structs : u.structs = p.store.structs :=
    (adds.trans adds').structs
  exact .pure ⟨vars, ids, declares.mono adds'.vars, rfl, has.declaresFirst, structs, reports.points,
    reports.reported⟩

end Locals

section Arguments

theorem register_function (s : Store) (generic : Bool) (m : ModuleId) (id : FunctionId) :
    (if generic = true then s.registerGeneric m id else s.registerFunction m id) =
      s.registerOn (if generic then .generics else .functions) m id := by
  cases generic <;> rfl

theorem kind_functionAlreadyDeclared (name : String) (previous : Option Span) :
    (Problem.functionAlreadyDeclared name previous).phrase.kind = .functionAlreadyDeclared :=
  CompileError.kind_withPrevious _ previous

/-- The arguments of a function are the first ones of their names. -/
theorem makeFunction_endsIf (span : Span) (name : String) (result : Option Ty) (body : Expr)
    (annots : List AnnotUse) (lines : List Line) (p : Program) :
    EndsIf (p.CanTake lines) (makeFunction span name lines result body annots) p fun answer q =>
      ∃ vars, p.store.DeclaresLines q.store lines vars ∧
      (∀ id, answer = some id → ∃ f, q.store.function? id = some f ∧
        q.store.DeclaresFirst f.args vars) ∧ q.store.structs = p.store.structs ∧
      p.ReportsRepeats q .argumentAlreadyDeclared Variable.span (some ·.span)
        (fun (v, first) => .argumentAlreadyDeclared v.name name (some first.span))
        (repeats Variable.name [] vars) := by
  refine (takeLines_endsIf lines p).bind ?_
  rintro vars _ ⟨t, rfl, adds, declares⟩
  refine .of_ends ?_
  dsimp only
  rw [firstOfName_eq, List.nil_append]
  refine (reportRepeats_ends Variable.span (some ·.span)
    (fun (v, first) => .argumentAlreadyDeclared v.name name (some first.span))
    (fun r => CompileError.redeclares_withPrevious _ r.1.span (some r.2.span) rfl) _ _).bind ?_
  rintro _ p₂ ⟨hstore, -, reports⟩
  refine (addVariables_ends _ p₂).bind ?_
  rintro ids _ ⟨u, rfl, adds', has⟩
  rw [hstore] at adds'
  refine (annotate_ends (k := .argumentAlreadyDeclared) nofun annots _ _).bind ?_
  rintro f p₄ ⟨args, annotated⟩
  refine .bind_run (a := p₄) rfl ?_
  have hf : (p₄.store.addFunction f).2.function? (p₄.store.addFunction f).1 = some f :=
    Table.get?_push_nextId _ _
  refine (register_reports (k := .argumentAlreadyDeclared)
    (q := p₄.inStore (p₄.store.addFunction f).2) ?_).mono ?_
  · rw [kind_functionAlreadyDeclared]
    nofun
  · rintro answer q ⟨registered, other, taken⟩
    rw [register_function] at registered
    have spares := Store.registerOn_spares (p₄.store.addFunction f).2
      (if p₄.store.isGenericFunction f = true then .generics else .functions) p₄.this
      (p₄.store.addFunction f).1
    have before : p₄.store = u := annotated.store
    have hvars : q.store.vars = u.vars := by
      rw [registered, ← before]
      exact spares.1
    have structs : q.store.structs = p.store.structs := by
      rw [registered, ← (adds.trans adds').structs, ← before]
      exact spares.2
    refine ⟨vars, declares.mono (hvars ▸ adds'.vars), fun id hid => ?_, structs,
      reports.points, (reports.later (annotated.reports.trans other)).reported⟩
    obtain rfl := taken id hid
    refine ⟨f.stamped (p₄.store.module p₄.this).name, ?_, Store.Has.declaresFirst ?_⟩
    · have stamped := (Store.stamps_registerOn (p₄.store.addFunction f).2
        (if p₄.store.isGenericFunction f = true then .generics else .functions) p₄.this
        (p₄.store.addFunction f).1).function? (p₄.store.addFunction f).1
      rw [if_pos List.mem_cons_self, hf] at stamped
      rw [registered]
      exact stamped
    · have hasArgs : u.Has f.args (firsts Variable.name [] vars) := by
        rw [args]
        exact has
      exact hasArgs.mono (by rw [hvars]; exact u.vars.partOf_refl)

end Arguments

section Entries

theorem declaresFirst_declaredEnum (span : Span) (name : String) (base : BaseType)
    (entries : List EntryLine) (module? : Option String) :
    Enumeration.DeclaresFirst { declaredEnum span name base entries with module? } entries where
  values := by
    change List.Forall₂ _ _ (Enumeration.numberFrom base 0 _)
    rw [firstOfName_eq, List.nil_append]
    exact Enumeration.forall₂_numberFrom base 0 _
  distinct := by
    change (List.map Prod.fst (Enumeration.numberFrom base 0 _)).Nodup
    rw [Enumeration.names_numberFrom, firstOfName_eq, List.nil_append, List.map_map]
    exact nodup_firsts EntryLine.name [] entries

theorem kind_enumerationAlreadyDeclared (name : String) (previous : Option Span) :
    (Problem.enumerationAlreadyDeclared name previous).phrase.kind = .enumerationAlreadyDeclared :=
  CompileError.kind_withPrevious _ previous

/-- The entries of an enumeration are the first ones of their names. -/
theorem makeEnumeration_firsts (span : Span) (name : String) (base : BaseType)
    (entries : List EntryLine) (p : Program) :
    Ends (makeEnumeration span name base entries) p fun answer q =>
      (∀ id, answer = some id → ∃ e, q.store.enumeration? id = some e ∧
        e.DeclaresFirst entries) ∧ q.store.structs = p.store.structs ∧
      p.ReportsRepeats q .enumerationValueAlreadyDeclared EntryLine.span (fun _ => none)
        (fun (entry, _) => .enumerationValueAlreadyDeclared name entry.name)
        (repeats EntryLine.name [] entries) := by
  have reports : Ends (makeEnumeration span name base entries) p fun _ q =>
      q.store.structs = p.store.structs ∧
      p.ReportsRepeats q .enumerationValueAlreadyDeclared EntryLine.span (fun _ => none)
        (fun (entry, _) => .enumerationValueAlreadyDeclared name entry.name)
        (repeats EntryLine.name [] entries) := by
    unfold makeEnumeration
    dsimp only
    rw [firstOfName_eq]
    refine (reportRepeats_ends EntryLine.span (fun _ => none)
      (fun (entry, _) => .enumerationValueAlreadyDeclared name entry.name)
      (fun r => ⟨rfl, rfl, rfl⟩) _ p).bind ?_
    rintro _ p₁ ⟨hstore, -, reports⟩
    refine .bind_run (a := p₁) rfl ?_
    set e := Enumeration.resolveValues _
    refine (register_reports (k := .enumerationValueAlreadyDeclared)
      (q := p₁.inStore (p₁.store.addEnumeration e).2) ?_).mono ?_
    · rw [kind_enumerationAlreadyDeclared]
      nofun
    · rintro answer q ⟨registered, other, -⟩
      refine ⟨?_, reports.points, (reports.later (.trans (.of_eq rfl) other)).reported⟩
      rw [registered, ← hstore]
      exact Store.structs_registerEnumeration _ _ _
  refine ((makeEnumeration_ends span name base entries p).and reports).mono ?_
  rintro answer q ⟨⟨-, declared⟩, structs, reports⟩
  refine ⟨fun id hid => ?_, structs, reports⟩
  obtain ⟨-, module?, he⟩ := declared id hid
  exact ⟨_, he, declaresFirst_declaredEnum span name base entries module?⟩

end Entries

end Program

end Frontend
