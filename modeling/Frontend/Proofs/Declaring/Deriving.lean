import Frontend.Proofs.Declaring.Actions
import Frontend.Proofs.Declaring.FirstOfName

/-!
# Structures that are derived from others

A derived structure starts with copies of the fields of its parent. A declaration adds fields behind
them, as long as their names are new, and leaves all structures that were there as they are but for
the modules that they are stamped with.
-/

namespace Frontend

/-- What casts and layouts see of a field. -/
def Field.outline (f : Field) : String × Ty := (f.name, f.type)

/-- The structure starts with the fields of another, as far as their outlines go; behind them are
fields of its own, with names that are new. -/
structure Struct.Extends (x p : Struct) (inherited own : List Field) : Prop where
  fields : x.fields = inherited ++ own
  copies : inherited.map Field.outline = p.fields.map Field.outline
  fresh : ∀ f ∈ own, p.field? f.name = none

/-- The names of some fields are all that decides whether one of a name is found. -/
theorem isSome_find?_of_outline {fs gs : List Field} (name : String)
    (h : fs.map Field.outline = gs.map Field.outline) :
    (fs.find? (·.name == name)).isSome = (gs.find? (·.name == name)).isSome := by
  have found (hs : List Field) : (hs.find? (·.name == name)).isSome =
      ((hs.map Field.outline).find? (·.1 == name)).isSome := by
    rw [List.find?_map, Option.isSome_map]
    rfl
  rw [found, found, h]

section First

variable {α : Type}

/-- Of several declarations those are kept that were there, and behind them some with names that
none of those has. -/
theorem kept_firstOfName (name : α → String) (earlier as : List α) :
    ∃ own, (firstOfName name earlier as).kept = earlier ++ own ∧
      ∀ a ∈ own, earlier.find? (fun b => name b == name a) = none := by
  refine ⟨firsts name earlier as, by rw [firstOfName_eq], fun a ha => ?_⟩
  exact List.find?_eq_none.2 fun b hb => by simpa using fresh_of_mem_firsts ha b hb

end First

namespace Store

variable {s t : Store} {x p : Struct} {parent : StructId} {name : String} {span : Span}

theorem copyFields_outline {fs fs' : List Field} (h : s.copyFields fs = .ok (fs', t)) :
    fs'.map Field.outline = fs.map Field.outline := by
  induction fs generalizing s fs' with
  | nil =>
    cases h
    rfl
  | cons f fs ih =>
    obtain ⟨r, hr, h⟩ := ok_of_bind h
    obtain ⟨r', hr', h⟩ := ok_of_bind h
    cases h
    exact congrArg (List.cons f.outline) (ih hr')

theorem deriveStruct_ok (hp : s.struct? parent = some p)
    (h : s.deriveStruct name parent span = .ok (x, t)) :
    x.parent? = some parent ∧ x.fields.map Field.outline = p.fields.map Field.outline := by
  obtain ⟨r, hr, h⟩ := ok_of_bind h
  rw [hp] at hr
  cases h
  exact ⟨rfl, copyFields_outline hr⟩

end Store

namespace Program

variable {p q r : Program}

/-- Every structure stays, but for the module that it is stamped with. -/
def KeepsStructs (p q : Program) : Prop :=
  ∀ id x, p.store.struct? id = some x →
    ∃ module?, q.store.struct? id = some { x with module? }

instance : Std.Refl KeepsStructs := ⟨fun _ _ x hx => ⟨x.module?, hx⟩⟩

instance : IsTrans Program KeepsStructs where
  trans p q r hpq hqr id x hx := by
    obtain ⟨_, hy⟩ := hpq id x hx
    obtain ⟨module?, hz⟩ := hqr id _ hy
    exact ⟨module?, hz⟩

theorem Grows.keepsStructs (h : p.Grows q) : p.KeepsStructs q :=
  fun id x hx => ⟨x.module?, h.kept.structs id x hx⟩

theorem keepsStructs_of_eq (h : q.store.structs = p.store.structs) : p.KeepsStructs q := by
  intro id x hx
  refine ⟨x.module?, ?_⟩
  rw [Store.struct?, h]
  exact hx

theorem keepsStructs_registerStruct (p : Program) (id : StructId) :
    p.KeepsStructs (p.inStore (p.store.registerStruct p.this id).2) := by
  unfold Store.registerStruct
  dsimp only
  split
  · exact Std.Refl.refl p
  · intro other x hx
    by_cases same : other = id
    · subst same
      refine ⟨some (p.store.module p.this).name, ?_⟩
      exact (Table.get?_modify_self _ _ _).trans (congrArg (Option.map _) hx)
    · exact ⟨x.module?, (Table.get?_modify_of_ne _ _ same).trans hx⟩

theorem reported_keepsStructs (problem : Problem) (span : Span) :
    Along KeepsStructs (reported problem span) :=
  fun p => (reported_refuses problem span p).mono fun _ _ h => h.toGrows.keepsStructs

theorem addStruct_keepsStructs (id : StructId) (x : Struct) :
    Along KeepsStructs (addStruct id x) := by
  refine .bind_get fun p => ?_
  rw [register_eq]
  refine .bind_run (a := ⟨⟩) rfl ?_
  have kept := keepsStructs_registerStruct p id
  dsimp only
  cases (p.store.registerStruct p.this id).1 with
  | true => exact .pure kept
  | false =>
    exact .bind (reported_keepsStructs _ _ _) fun _ q hq => .pure (IsTrans.trans p _ q kept hq)

theorem addStructHandle_keepsStructs (id : StructId) (a : Annot) (arguments : Arguments) :
    Along KeepsStructs (addStructHandle id a arguments) := by
  refine .bind_get fun p => ?_
  dsimp only
  split
  · exact .bind_run (a := ⟨⟩) rfl (.pure (grows_report p _).keepsStructs)
  · refine .bind (.lift (Q := fun _ q => p = q) fun _ _ => rfl) ?_
    rintro bound _ rfl
    cases bound with
    | error reason => exact .bind_run (a := ⟨⟩) rfl (.pure (grows_report p _).keepsStructs)
    | ok bound =>
      refine .bind_run (a := ⟨⟩) rfl (.pure (keepsStructs_of_eq ?_))
      rw [register_eq]
      unfold Store.registerAnnot
      dsimp only
      split <;> rfl

theorem addHandle_keepsStructs (id : StructId) (x : Struct) (u : AnnotUse) :
    Along KeepsStructs (addHandle id x u) := by
  refine .bind_get fun p => ?_
  split
  · exact .bind (reported_keepsStructs _ _ p) fun _ q hq => .pure hq
  · exact addStructHandle_keepsStructs id _ _ p

theorem registerStruct_keepsStructs (id : StructId) (x : Struct) :
    Along KeepsStructs (registerStruct id x) := by
  refine .bind_get fun p => ?_
  dsimp only
  split
  · exact addHandle_keepsStructs id x _ p
  · exact addStruct_keepsStructs id x p

theorem startStruct_derives (span : Span) (name : String) {parent : StructId} {x : Struct}
    (hx : p.store.struct? parent = some x) :
    Yields (startStruct span name (some parent)) p fun y _ =>
      y.parent? = some parent ∧ y.fields.map Field.outline = x.fields.map Field.outline := by
  refine .bind_run (a := p) rfl ?_
  cases h : p.store.deriveStruct name parent span with
  | error fault => exact .throw
  | ok r => exact .bind_run (a := ()) rfl (.pure (Store.deriveStruct_ok (t := r.2) hx h))

/-- A structure that is declared with a parent extends it, and the parent stays. -/
theorem makeStruct_derives (span : Span) (name : String) {parent : StructId} {x : Struct}
    (lines : List Line) (annots : List AnnotUse) (hx : p.store.struct? parent = some x) :
    Yields (makeStruct span name (some parent) lines annots) p fun answer q =>
      ∀ id, answer = some id → p.KeepsStructs q ∧ ∃ y inherited own,
        q.store.struct? id = some y ∧ y.parent? = some parent ∧ y.Extends x inherited own := by
  unfold makeStruct
  have started := (startStruct_registersNothing span name (some parent) p).and
    (startStruct_derives span name hx)
  refine started.bind fun x₁ p₁ ⟨h₁, hparent, copies⟩ => ?_
  refine .bind (takeLines_registersNothing lines p₁) fun vars p₂ h₂ => ?_
  dsimp only
  refine .bind (reportEach_registersNothing _ _ _ p₂) fun _ p₃ h₃ => ?_
  refine .bind (checkStructAnnots_yields name annots p₃) fun ok p₄ ⟨h₄, _⟩ => ?_
  cases ok with
  | false => exact .pure nofun
  | true =>
    refine .bind_run (a := p₄) rfl (.bind_run (a := ⟨⟩) rfl ?_)
    generalize hkept : (firstOfName Field.name x₁.fields _).kept = kept
    set y : Struct := { x₁ with fields := kept, annots } with hy
    have h₄ : p.Grows (p₄.inStore (p₄.store.addStruct y).2) :=
      (h₁.trans (h₂.trans (h₃.trans h₄))).trans (grows_of_kept (.addStruct _ y) rfl)
    have hnew : (p₄.store.addStruct y).2.struct? (p₄.store.addStruct y).1 = some y :=
      Table.get?_push_nextId _ y
    refine .bind (registerStruct_keepsStructs _ y _) fun added p₅ h₅ => ?_
    cases added with
    | false => exact .pure nofun
    | true =>
      refine (checkFieldCycles_yields _ p₅).discard.bind fun _ p₆ ⟨_, _, h₆, _⟩ => .pure ?_
      intro id hid
      cases hid
      have h₆ : (p₄.inStore (p₄.store.addStruct y).2).KeepsStructs p₆ :=
        IsTrans.trans _ _ _ h₅ h₆.keepsStructs
      obtain ⟨module?, hid⟩ := h₆ _ y hnew
      obtain ⟨own, happend, hfresh⟩ := kept_firstOfName Field.name x₁.fields _
      refine ⟨IsTrans.trans _ _ _ h₄.keepsStructs h₆, _, x₁.fields, own, hid, hparent, ?_⟩
      refine ⟨hkept.symm.trans happend, copies, fun f hf => ?_⟩
      have := isSome_find?_of_outline f.name copies
      rw [hfresh f hf, Option.isSome_none, eq_comm, Option.isSome_eq_false_iff] at this
      exact Option.isNone_iff_eq_none.1 this

end Program

end Frontend
