import Frontend.Proofs.Declaring.Redeclaring

/-!
# The fields of a structure

A structure starts with copies of its parent's fields, and these count as earlier declarations of
their names. So a declared field is there if no field of the parent has its name and none before it
in the declaration.
-/

namespace Frontend

def Variable.toField (v : Variable) : Field :=
  { name := v.name, type := v.type, init := v.init, arguments := v.arguments, moves := v.movesInit
    span := v.span }

/-- The inherited fields, and behind them the declared ones that are the first of their names. -/
def fieldsBehind (inherited : List Field) (vars : List Variable) : List Field :=
  inherited ++ firsts Field.name inherited (vars.map Variable.toField)

theorem Store.CopiesFields.mono {s t u : Store} {fs fs' : List Field} (h : s.CopiesFields t fs fs')
    (later : t.vars.PartOf u.vars) : s.CopiesFields u fs fs' :=
  List.Forall₂.imp (fun _ _ ⟨init, hf, hcopy⟩ => ⟨init, hf, hcopy.mono later⟩) h

theorem Store.CopiesFields.map_name {s t : Store} {fs fs' : List Field}
    (h : s.CopiesFields t fs fs') : fs'.map Field.name = fs.map Field.name := by
  induction h with
  | nil => rfl
  | cons copied _ ih =>
    obtain ⟨init, rfl, -⟩ := copied
    rw [List.map_cons, List.map_cons, ih]

/-- The names are distinct if those of the parent are. -/
theorem nodup_fieldsBehind_iff {s t : Store} {fs inherited : List Field} {vars : List Variable}
    (h : s.CopiesFields t fs inherited) :
    ((fieldsBehind inherited vars).map Field.name).Nodup ↔ (fs.map Field.name).Nodup := by
  rw [← h.map_name]
  exact nodup_append_firsts_iff Field.name inherited _

namespace Program

variable {p q : Program} {parent : Option StructId}

def parentFields (p : Program) : Option StructId → List Field
  | none => []
  | some parent => ((p.store.struct? parent).map (·.fields)).getD []

/-- The initializers that a parent hands down can be read. -/
def CanDerive (p : Program) (parent : Option StructId) : Prop :=
  ∀ f ∈ p.parentFields parent, ∀ e, f.init = some e → p.store.CanRead e

theorem startStruct_endsIf (span : Span) (name : String) (parent : Option StructId) (p : Program) :
    EndsIf (p.CanDerive parent) (startStruct span name parent) p fun x q => ∃ t, q = p.inStore t ∧
      p.store.AddsVars t ∧ p.store.CopiesFields t (p.parentFields parent) x.fields := by
  cases parent with
  | none => exact .of_ends (.pure ⟨p.store, rfl, .refl _, .nil⟩)
  | some parent =>
    have run : (startStruct span name (some parent)).run p =
        (p.store.copyFields (p.parentFields (some parent))).map fun r =>
          ({ name, fields := r.1, span, parent? := some parent }, p.inStore r.2) := by
      unfold startStruct
      rw [StateT.run_bind, StateT.run_get, pure_bind]
      dsimp only
      rw [Store.deriveStruct, parentFields]
      cases p.store.copyFields (((p.store.struct? parent).map (·.fields)).getD []) <;> rfl
    refine .of_map run (fun r hr => ⟨r.2, rfl, ?_⟩) Store.copyFields_of_canRead
    exact ⟨addsVars_copyFields hr, Store.copiesFields_copyFields hr⟩

/-- A structure of these fields is there if there is an answer, and no other one is new. -/
structure Declares (p q : Program) (answer : Option StructId) (fields : List Field) : Prop where
  declared : ∀ id, answer = some id → ∃ x, q.store.struct? id = some x ∧ x.fields = fields
  others : ∀ id x, q.store.struct? id = some x →
    (p.store.struct? id).map Struct.fields = some x.fields ∨ x.fields = fields

theorem declares_none {fields : List Field} (h : q.store.structs = p.store.structs) :
    p.Declares q none fields where
  declared := nofun
  others id x hx := by
    rw [Store.struct?, h] at hx
    exact .inl (congrArg (Option.map Struct.fields) hx)

theorem struct?_addStruct (s : Store) (x : Struct) :
    (s.addStruct x).2.struct? (s.addStruct x).1 = some x := Table.get?_push_nextId _ x

theorem declares_addStruct {x : Struct} {answer : Option StructId}
    (h : (p.store.addStruct x).2.Spares q.store)
    (hanswer : ∀ id, answer = some id → id = (p.store.addStruct x).1) :
    p.Declares q answer x.fields where
  declared id hid := by
    have same := h.fields id
    rw [hanswer id hid, struct?_addStruct] at same
    obtain ⟨y, hy, fields⟩ := Option.map_eq_some_iff.1 same
    exact ⟨y, hanswer id hid ▸ hy, fields⟩
  others id y hy := by
    have same := h.fields id
    rw [hy] at same
    by_cases new : id = (p.store.addStruct x).1
    · rw [new, struct?_addStruct] at same
      exact .inr (Option.some.inj same)
    · refine .inl (Eq.trans ?_ same.symm)
      exact congrArg (Option.map Struct.fields) (Table.get?_push_of_ne _ _ new).symm

theorem addedStruct_endsIf {k : ErrorKind} (hk : k ≠ .invalidAnnot)
    (hk' : k ≠ .structureAlreadyDeclared) (hk'' : k ≠ .structureFieldCycle) (x : Struct)
    (p : Program) :
    EndsIf (p.NeedsNoPod x.annots) (do
      set (p.inStore (p.store.addStruct x).2)
      if (!(← registerStruct (p.store.addStruct x).1 x)) = true then return none
      discard (checkFieldCycles (p.store.addStruct x).1)
      return some (p.store.addStruct x).1) q fun answer r =>
        p.Declares r answer x.fields ∧ r.store.vars = p.store.vars ∧ p.ReportsOther k r := by
  refine .bind_run (a := ⟨⟩) rfl ?_
  refine .bind (registerStruct_endsIf hk hk' _ x (p.inStore (p.store.addStruct x).2)) ?_
  intro added r spares
  have reports : p.ReportsOther k r := .trans (.of_eq rfl) spares.reports
  cases added with
  | false =>
    exact .of_ends (.pure
      ⟨declares_addStruct spares.store nofun, spares.store.vars, reports⟩)
  | true =>
    refine .of_ends (.bind (P := fun _ q => r.OnlyReports k q)
      (.map (g := fun _ => PUnit.unit) (checkFieldCycles_ends hk'' _ r)) ?_)
    intro _ r' checked
    refine .pure ⟨declares_addStruct ?_ ?_, ?_, reports.trans checked.reports⟩
    · rw [checked.store]; exact spares.store
    · exact fun id hid => (Option.some.inj hid).symm
    · rw [checked.store]; exact spares.store.vars

/-- The fields of a structure are those of its parent and the first ones of their names that are
declared. No other structure changes. -/
theorem makeStruct_endsIf (span : Span) (name : String) (parent : Option StructId)
    (lines : List Line) (annots : List AnnotUse) (p : Program) :
    EndsIf (p.CanDerive parent ∧ p.CanTake lines ∧ p.NeedsNoPod annots)
      (makeStruct span name parent lines annots) p fun answer q => ∃ inherited vars,
        p.store.CopiesFields q.store (p.parentFields parent) inherited ∧
        p.store.DeclaresLines q.store lines vars ∧
        p.Declares q answer (fieldsBehind inherited vars) ∧
        p.ReportsRepeats q .structureFieldAlreadyDeclared Field.span (some ·.span)
          (fun (f, first) => .structureFieldAlreadyDeclared name f.name (some first.span))
          (repeats Field.name inherited (vars.map Variable.toField)) := by
  refine ((startStruct_endsIf span name parent p).under And.left).bind ?_
  rintro x _ ⟨t, rfl, adds, inherits⟩
  have taken := (takeLines_endsIf lines (p.inStore t)).under
    fun h : p.CanDerive parent ∧ p.CanTake lines ∧ p.NeedsNoPod annots =>
      fun line hline e he => (h.2.1 line hline e he).of_addsVars adds
  refine taken.bind ?_
  rintro vars _ ⟨u, rfl, adds', declares⟩
  -- the own fields are taken behind the copies of the inherited ones, which stay as they are
  have adds'' : p.store.AddsVars u := adds.trans adds'
  have inherits' := inherits.mono adds'.vars
  have declares' := Store.DeclaresLines.of_earlier declares adds
  dsimp only
  generalize hown : List.map _ vars = own
  have same : own = vars.map Variable.toField := hown.symm
  subst same
  rw [firstOfName_eq]
  refine (EndsIf.of_ends (reportRepeats_ends Field.span (some ·.span)
    (fun (f, first) => .structureFieldAlreadyDeclared name f.name (some first.span))
    (fun r => CompileError.redeclares_withPrevious _ r.1.span (some r.2.span) rfl) _ _)).bind ?_
  rintro _ p₃ ⟨hstore, -, reports⟩
  refine (EndsIf.of_ends (checkStructAnnots_ends (k := .structureFieldAlreadyDeclared) nofun
    name annots p₃)).bind ?_
  rintro ok p₄ annotated
  have before : p₄.store = u := annotated.store.trans hstore
  have reports₄ := reports.later annotated.reports
  cases ok with
  | false =>
    refine .of_ends (.pure ⟨x.fields, vars, ?_, ?_, declares_none ?_, reports₄.points,
      reports₄.reported⟩)
    · rw [before]; exact inherits'
    · rw [before]; exact declares'
    · rw [before]; exact adds''.structs
  | true =>
    refine .bind_run (a := p₄) rfl ?_
    have annot? : p₄.store.annot? = p.store.annot? := by
      rw [before, adds''.rest]
      rfl
    refine ((addedStruct_endsIf (k := .structureFieldAlreadyDeclared) nofun nofun nofun _ p₄).under
      fun h => ?_).mono ?_
    · change ∀ u ∈ annots, _
      rw [annot?]
      exact h.2.2
    · rintro answer q ⟨declared, vars', other⟩
      have reports₅ := reports₄.later other
      have later : u.vars.PartOf q.store.vars := by
        rw [vars', before]
        exact u.vars.partOf_refl
      refine ⟨x.fields, vars, inherits'.mono later, declares'.mono later, ?_, reports₅.points,
        reports₅.reported⟩
      refine ⟨declared.declared, fun id y hy => ?_⟩
      have others := declared.others id y hy
      rwa [Store.struct?, before, adds''.structs] at others

end Program

end Frontend
