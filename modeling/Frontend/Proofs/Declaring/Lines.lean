import Frontend.Proofs.Copying.SelfContained
import Frontend.Proofs.Declaring.Actions

/-!
# The variables of lines

Every name of a line gets a variable of its own, at its own place, with the type and the flags of
the line and a copy of the initializer. The copies are there as long as the initializers can be
read, and nothing is done to the program but that variables are added.
-/

namespace Frontend

namespace Store

variable {s t u : Store} {e : Expr} {init init' : Option Expr}

/-- A tree can be read: the variables that it declares are there, and none of them is declared in
its own initializer. -/
def CanRead (s : Store) (e : Expr) : Prop :=
  ∃ ms, s.Mentions [.child e] ms ∧ ∀ id, .declares id ∈ ms → id.index < s.vars.slots.size

theorem CanRead.of_addsVars (h : s.CanRead e) (adds : s.AddsVars t) : t.CanRead e := by
  obtain ⟨ms, hms, alive⟩ := h
  refine ⟨ms, hms.of_inits fun id hid => ?_, fun id hid => (adds.old id (alive id hid)).1⟩
  rw [Store.var, Store.var, (adds.old id (alive id hid)).2]

theorem CanRead.copyExpr (h : s.CanRead e) : ∃ r, s.copyExpr e = .ok r := by
  obtain ⟨ms, hms, alive⟩ := h
  obtain ⟨e', s', -, hcopy, -⟩ := copyExpr_ends hms alive
  exact ⟨(e', s'), hcopy⟩

theorem copyOption_of_canRead (h : ∀ e, init = some e → s.CanRead e) :
    ∃ r, s.copyOption init = .ok r := by
  cases init with
  | none => exact ⟨_, rfl⟩
  | some e =>
    obtain ⟨r, hr⟩ := (h e rfl).copyExpr
    exact ⟨_, by rw [copyOption, hr]; rfl⟩

/-- The second tree is a copy of the first, made at some time between the two stores. -/
def CopiedBetween (s t : Store) (init init' : Option Expr) : Prop :=
  ∃ s₁ s₂, s.AddsVars s₁ ∧ s₁.copyOption init = .ok (init', s₂) ∧ s₂.vars.PartOf t.vars

theorem CopiedBetween.mono (h : s.CopiedBetween t init init') (later : t.vars.PartOf u.vars) :
    s.CopiedBetween u init init' := by
  obtain ⟨s₁, s₂, adds, hcopy, part⟩ := h
  exact ⟨s₁, s₂, adds, hcopy, part.trans later⟩

theorem CopiedBetween.of_earlier (h : t.CopiedBetween u init init') (adds : s.AddsVars t) :
    s.CopiedBetween u init init' := by
  obtain ⟨s₁, s₂, adds₁, hcopy, part⟩ := h
  exact ⟨s₁, s₂, adds.trans adds₁, hcopy, part⟩

theorem copiedBetween_of_copyOption (h : s.copyOption init = .ok (init', t)) :
    s.CopiedBetween t init init' := ⟨s, t, .refl s, h, t.vars.partOf_refl⟩

theorem AddsVars.vars (h : s.AddsVars t) : s.vars.PartOf t.vars := (KeptIn.of_addsVars h).vars

end Store

theorem Store.AddsVars.structs {s t : Store} (h : s.AddsVars t) : t.structs = s.structs := by
  rw [h.rest]

def Line.variable (line : Line) (named : String × Span) (init : Option Expr) : Variable :=
  { name := named.1, type := line.type.getD .auto, init, span := named.2, movesInit := line.moves
    arguments := line.arguments }

def namesOf (lines : List Line) : List (Line × String × Span) :=
  lines.flatMap fun line => line.names.map (line, ·)

namespace Store

variable {s t u : Store} {line : Line} {lines : List Line} {names : List (String × Span)}
  {vars : List Variable} {fs fs' : List Field}

/-- The variables are those of the names in the lines, with copies of the initializers that were
made between the two stores. -/
def DeclaresLines (s t : Store) (lines : List Line) (vars : List Variable) : Prop :=
  (namesOf lines).Forall₂ (fun (line, named) v =>
    ∃ init, v = line.variable named init ∧ s.CopiedBetween t line.init init) vars

theorem DeclaresLines.mono (h : s.DeclaresLines t lines vars) (later : t.vars.PartOf u.vars) :
    s.DeclaresLines u lines vars :=
  List.Forall₂.imp (fun _ _ ⟨init, hv, hcopy⟩ => ⟨init, hv, hcopy.mono later⟩) h

theorem DeclaresLines.of_earlier (h : t.DeclaresLines u lines vars) (adds : s.AddsVars t) :
    s.DeclaresLines u lines vars :=
  List.Forall₂.imp (fun _ _ ⟨init, hv, hcopy⟩ => ⟨init, hv, hcopy.of_earlier adds⟩) h

theorem forall₂_namedVariables (h : s.namedVariables line names = .ok (vars, t)) :
    names.Forall₂ (fun named v =>
      ∃ init, v = line.variable named init ∧ s.CopiedBetween t line.init init) vars := by
  induction names generalizing s vars with
  | nil =>
    cases h
    exact .nil
  | cons first names ih =>
    obtain ⟨r, hr, h⟩ := ok_of_bind h
    obtain ⟨r', hr', h⟩ := ok_of_bind h
    cases h
    have first := copiedBetween_of_copyOption hr
    refine .cons ⟨r.1, rfl, first.mono (addsVars_namedVariables hr').vars⟩ ?_
    exact List.Forall₂.imp
      (fun _ _ ⟨init, hv, hcopy⟩ => ⟨init, hv, hcopy.of_earlier (addsVars_copyOption hr)⟩) (ih hr')

/-- What lines declare, by induction on them. -/
theorem declaresLines_lineVariables (h : s.lineVariables lines = .ok (vars, t)) :
    s.DeclaresLines t lines vars := by
  induction lines generalizing s vars with
  | nil =>
    cases h
    exact .nil
  | cons line lines ih =>
    obtain ⟨r, hr, h⟩ := ok_of_bind h
    obtain ⟨r', hr', h⟩ := ok_of_bind h
    cases h
    have later := (addsVars_lineVariables hr').vars
    refine List.rel_append (List.forall₂_map_left_iff.2 ?_) ((ih hr').of_earlier
      (addsVars_namedVariables hr))
    exact List.Forall₂.imp (fun _ _ ⟨init, hv, hcopy⟩ => ⟨init, hv, hcopy.mono later⟩)
      (forall₂_namedVariables hr)

theorem namedVariables_of_canRead (names : List (String × Span))
    (h : ∀ e, line.init = some e → s.CanRead e) : ∃ r, s.namedVariables line names = .ok r := by
  induction names generalizing s with
  | nil => exact ⟨_, rfl⟩
  | cons first names ih =>
    obtain ⟨r, hr⟩ := copyOption_of_canRead h
    have adds : s.AddsVars r.2 := addsVars_copyOption hr
    obtain ⟨r', hr'⟩ := ih fun e he => (h e he).of_addsVars adds
    exact ⟨_, by rw [namedVariables, hr]; dsimp only [bind, Except.bind]; rw [hr']; rfl⟩

theorem lineVariables_of_canRead (h : ∀ line ∈ lines, ∀ e, line.init = some e → s.CanRead e) :
    ∃ r, s.lineVariables lines = .ok r := by
  induction lines generalizing s with
  | nil => exact ⟨_, rfl⟩
  | cons line lines ih =>
    obtain ⟨hline, hlines⟩ := List.forall_mem_cons.1 h
    obtain ⟨r, hr⟩ := namedVariables_of_canRead line.names hline
    have adds : s.AddsVars r.2 := addsVars_namedVariables hr
    obtain ⟨r', hr'⟩ := ih fun line hline e he => (hlines line hline e he).of_addsVars adds
    exact ⟨_, by rw [lineVariables, hr]; dsimp only [bind, Except.bind]; rw [hr']; rfl⟩

def CopiesFields (s t : Store) (fs fs' : List Field) : Prop :=
  fs.Forall₂ (fun f f' => ∃ init, f' = { f with init } ∧ s.CopiedBetween t f.init init) fs'

theorem copiesFields_copyFields (h : s.copyFields fs = .ok (fs', t)) :
    s.CopiesFields t fs fs' := by
  induction fs generalizing s fs' with
  | nil =>
    cases h
    exact .nil
  | cons f fs ih =>
    obtain ⟨r, hr, h⟩ := ok_of_bind h
    obtain ⟨r', hr', h⟩ := ok_of_bind h
    cases h
    have first := copiedBetween_of_copyOption hr
    refine .cons ⟨r.1, rfl, first.mono (addsVars_copyFields hr').vars⟩ ?_
    exact List.Forall₂.imp
      (fun _ _ ⟨init, hf, hcopy⟩ => ⟨init, hf, hcopy.of_earlier (addsVars_copyOption hr)⟩) (ih hr')

theorem copyFields_of_canRead (h : ∀ f ∈ fs, ∀ e, f.init = some e → s.CanRead e) :
    ∃ r, s.copyFields fs = .ok r := by
  induction fs generalizing s with
  | nil => exact ⟨_, rfl⟩
  | cons f fs ih =>
    obtain ⟨hf, hfs⟩ := List.forall_mem_cons.1 h
    obtain ⟨r, hr⟩ := copyOption_of_canRead hf
    have adds : s.AddsVars r.2 := addsVars_copyOption hr
    obtain ⟨r', hr'⟩ := ih fun f hf e he => (hfs f hf e he).of_addsVars adds
    exact ⟨_, by rw [copyFields, hr]; dsimp only [bind, Except.bind]; rw [hr']; rfl⟩

end Store

def Store.Has (s : Store) (ids : List VarId) (vars : List Variable) : Prop :=
  ids.Forall₂ (fun id v => s.vars.get? id = some v) vars

namespace Program

variable {p q : Program} {lines : List Line}

def CanTake (p : Program) (lines : List Line) : Prop :=
  ∀ line ∈ lines, ∀ e, line.init = some e → p.store.CanRead e

/-- Taking lines adds variables and does nothing else. -/
theorem takeLines_endsIf (lines : List Line) (p : Program) :
    EndsIf (p.CanTake lines) (takeLines lines) p fun vars q => ∃ t, q = p.inStore t ∧
      p.store.AddsVars t ∧ p.store.DeclaresLines t lines vars := by
  have run : (takeLines lines).run p =
      (p.store.lineVariables lines).map fun r => (r.1, p.inStore r.2) := by
    unfold takeLines
    rw [StateT.run_bind, StateT.run_get, pure_bind]
    dsimp only
    cases p.store.lineVariables lines <;> rfl
  refine .of_map run (fun r hr => ⟨r.2, rfl, ?_⟩) Store.lineVariables_of_canRead
  exact ⟨Store.addsVars_lineVariables hr, Store.declaresLines_lineVariables hr⟩

theorem addsVars_addVariable (s : Store) (v : Variable) : s.AddsVars (s.addVariable v).2 where
  rest := rfl
  old id hid := by
    have old : id ≠ s.vars.nextId := by
      rintro rfl
      exact Nat.lt_irrefl _ hid
    refine ⟨?_, Table.get?_push_of_ne _ _ old⟩
    simp only [Store.addVariable, Table.push, Array.size_push]
    omega

theorem addVariables_ends (vars : List Variable) (p : Program) :
    Ends (addVariables vars) p fun ids q => ∃ t, q = p.inStore t ∧ p.store.AddsVars t ∧
      t.Has ids vars := by
  induction vars generalizing p with
  | nil => exact .pure ⟨p.store, rfl, .refl _, .nil⟩
  | cons v vars ih =>
    refine .bind_run (a := p) rfl (.bind_run (a := ⟨⟩) rfl ?_)
    refine (ih _).bind ?_
    rintro ids _ ⟨t, rfl, adds, found⟩
    have first := addsVars_addVariable p.store v
    refine .pure ⟨t, rfl, first.trans adds, .cons ?_ found⟩
    exact adds.vars _ _ (Table.get?_push_nextId _ v)

end Program

end Frontend
