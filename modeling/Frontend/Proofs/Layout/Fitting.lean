import Frontend.Proofs.Layout.Demands

/-!
# Sizes that fit words

A size has a result exactly if no number that comes up on the way leaves the word, and overflows
otherwise. A number on the way may leave the word although the size that it leads to does not, as
only a later dimension may be zero.
-/

namespace Frontend

variable {α β : Type}

def Overflows (m : Except Fault α) : Prop :=
  m = .error .sizeSumOverflow ∨ m = .error .sizeProductOverflow

/-- The work gives its exact result if the numbers on the way fit, and overflows if they do not. -/
structure Checked (m : Except Fault α) (fits : Prop) (a : α) : Prop where
  ok : fits → m = .ok a
  overflows : ¬ fits → Overflows m

section Work

variable {m : Except Fault α} {k : α → Except Fault β} {p q : Prop} {a n : α} {b : β}

theorem checked_ok (a : α) : Checked (.ok a : Except Fault α) True a :=
  ⟨fun _ => rfl, fun h => absurd trivial h⟩

theorem Checked.congr (h : Checked m p a) (hfits : p ↔ q) : Checked m q a :=
  ⟨fun fits => h.ok (hfits.2 fits), fun not => h.overflows fun fits => not (hfits.1 fits)⟩

theorem Checked.bind (h : Checked m p a) (hk : Checked (k a) q b) :
    Checked (m >>= k) (p ∧ q) b := by
  by_cases fits : p
  · rw [h.ok fits]
    exact hk.congr (and_iff_right fits).symm
  · refine ⟨fun both => absurd both.1 fits, fun _ => ?_⟩
    rcases h.overflows fits with overflow | overflow <;> rw [overflow]
    · exact .inl rfl
    · exact .inr rfl

theorem Checked.ok_iff (h : Checked m p a) : m = .ok n ↔ p ∧ n = a := by
  constructor
  · intro hn
    by_cases fits : p
    · rw [h.ok fits] at hn
      exact ⟨fits, (Except.ok.inj hn).symm⟩
    · rcases h.overflows fits with overflow | overflow <;> rw [overflow] at hn <;> cases hn
  · rintro ⟨fits, rfl⟩
    exact h.ok fits

theorem checked_addSizes (a b : Nat) : Checked (addSizes a b) (a + b < sizeLimit) (a + b) :=
  ⟨fun fits => if_pos fits, fun not => .inl (if_neg not)⟩

theorem checked_mulSizes (a b : Nat) : Checked (mulSizes a b) (a * b < sizeLimit) (a * b) :=
  ⟨fun fits => if_pos fits, fun not => .inr (if_neg not)⟩

theorem checked_alignUp (size align : Nat) :
    Checked (alignUp size align) (size + max align 1 < sizeLimit) (roundUp size align) := by
  rw [alignUp_eq]
  exact ⟨fun fits => if_pos fits, fun not => .inl (if_neg not)⟩

end Work

namespace Store

variable {s : Store} {t : Ty} {ts : List Ty} {id : StructId} {x : Struct} {steps size start : Nat}
  {f : StructId → Except Fault Nat} {previous owner : Option FieldOwner} {fields : List Field}

section Types

theorem checked_dimsSize (element : Nat) (dims : List Int32) :
    Checked (dimsSize element dims) (ProductsFit element dims) (element * elementCount dims) := by
  induction dims generalizing element with
  | nil =>
    rw [elementCount, List.foldr_nil, Nat.mul_one]
    exact (checked_ok element).congr (iff_of_true trivial (productsFit_nil element))
  | cons d dims ih =>
    rw [elementCount_cons, ← Nat.mul_assoc]
    exact ((checked_mulSizes element d.toInt.toNat).bind (ih _)).congr
      (productsFit_cons element d dims).symm

theorem checked_tupleSizeWith
    (each : ∀ u ∈ ts, Checked (s.sizeWith f u) (s.Fits u) (s.extent u) ∧ Answers (s.typeAlign u)) :
    Checked (s.tupleSizeWith f start ts)
      ((∀ n ∈ packSums start (ts.map s.measure), n < sizeLimit) ∧ ∀ u ∈ ts, s.Fits u)
      (stopFrom start (pack start (ts.map s.measure))) := by
  induction ts generalizing start with
  | nil => exact (checked_ok start).congr (by simp [packSums])
  | cons t ts ih =>
    obtain ⟨⟨ht, align, halign⟩, hts⟩ := List.forall_mem_cons.1 each
    rw [tupleSizeWith, halign, ← alignOf_of_ok halign]
    refine ((checked_alignUp start (s.alignOf t)).bind
      (ht.bind ((checked_addSizes _ _).bind (ih hts)))).congr ?_
    simp only [List.map_cons, packSums, List.forall_mem_cons]
    constructor
    · rintro ⟨h, ht, hstop, hrest, hts⟩
      exact ⟨⟨h, hstop, hrest⟩, ht, hts⟩
    · rintro ⟨⟨h, hstop, hrest⟩, ht, hts⟩
      exact ⟨h, ht, hstop, hrest, hts⟩

theorem checked_sizesWith (each : ∀ u ∈ ts, Checked (s.sizeWith f u) (s.Fits u) (s.extent u)) :
    Checked (s.sizesWith f ts) (∀ u ∈ ts, s.Fits u) (ts.map s.extent) := by
  induction ts with
  | nil => exact (checked_ok []).congr (by simp)
  | cons t ts ih =>
    obtain ⟨ht, hts⟩ := List.forall_mem_cons.1 each
    rw [List.forall_mem_cons]
    refine (ht.bind ((ih hts).bind (checked_ok (s.extent t :: ts.map s.extent)))).congr ?_
    rw [and_true]

theorem elementSizeWith_sized (sized : s.sizedStruct? t = some id) :
    s.elementSizeWith f t = f id := by
  obtain ⟨base | base, -⟩ := sizedStruct?_eq_some sized <;>
    rw [sizedStruct?, base] at sized <;> dsimp only at sized
  · rw [elementSizeWith, base, sized]
    rfl
  · rw [elementSizeWith, base]
    dsimp only [BaseType.size?]
    rw [annotMeasure_eq, sized]

theorem elementExtent_sized (sized : s.sizedStruct? t = some id) :
    s.elementExtent t = s.structExtent id := by
  obtain ⟨base | base, -⟩ := sizedStruct?_eq_some sized <;>
    rw [sizedStruct?, base] at sized <;> dsimp only at sized
  · exact elementExtent_struct base sized
  · exact elementExtent_of_bound base sized

theorem elementSizeWith_plain (tuple : t.base ≠ .tuple) (variant : t.base ≠ .variant)
    (sized : s.sizedStruct? t = none) : s.elementSizeWith f t = .ok (s.elementExtent t) := by
  rw [elementExtent, elementExtentWith_eq, elementSizeWith]
  unfold sizedStruct? at sized
  cases base : t.base <;> rw [base] at sized
  case tuple => exact absurd base tuple
  case variant => exact absurd base variant
  case struct =>
    dsimp only at sized ⊢
    rw [sized]
    rfl
  case handle =>
    dsimp only [BaseType.size?] at sized ⊢
    rw [annotMeasure_eq, annotExtent, sized]
  all_goals rfl

/-- The size of a type is checked if those of the structures that it holds are. -/
theorem checked_sizeWith (structs : ∀ id ∈ s.valueStructs t,
      Checked (f id) (s.StructFits id) (s.structExtent id) ∧ Answers (s.structAlign id)) :
    Checked (s.sizeWith f t) (s.Fits t) (s.extent t) := by
  induction t using Ty.induction_args with
  | step t ih =>
    obtain ⟨align, halign⟩ : Answers (s.typeAlign t) :=
      answers_alignWith t |>.2 fun id hid => (structs id hid).2
    have args (h : ∀ id ∈ s.valueStructsList t.args,
        Checked (f id) (s.StructFits id) (s.structExtent id) ∧ Answers (s.structAlign id))
        (u : Ty) (hu : u ∈ t.args) :
        Checked (s.sizeWith f u) (s.Fits u) (s.extent u) ∧ Answers (s.typeAlign u) :=
      have hu' := forall_mem_valueStructsList.1 h u hu
      ⟨ih u hu hu', answers_alignWith u |>.2 fun id hid => (hu' id hid).2⟩
    rw [sizeWith_eq]
    have products := checked_dimsSize (s.elementExtent t) t.dims
    by_cases tuple : t.base = .tuple
    · rw [valueStructs_eq, tuple] at structs
      refine Checked.congr (Checked.bind ?_ products) (fits_tuple_iff tuple).symm
      rw [elementSizeWith, tuple, elementExtent_tuple tuple, reserve, tuple]
      refine (checked_tupleSizeWith (args structs)).bind ?_
      rw [halign, ← alignOf_of_ok halign]
      exact checked_alignUp _ _
    by_cases variant : t.base = .variant
    · rw [valueStructs_eq, variant] at structs
      refine Checked.congr (Checked.bind ?_ products) (fits_variant_iff variant).symm
      rw [elementSizeWith, variant, elementExtent_variant variant, reserve, variant]
      refine (checked_sizesWith fun u hu => (args structs u hu).1).bind ?_
      rw [halign, ← alignOf_of_ok halign]
      exact (checked_alignUp 4 _).bind ((checked_addSizes _ _).bind (checked_alignUp _ _))
    cases sized : s.sizedStruct? t with
    | none =>
      rw [elementSizeWith_plain tuple variant sized]
      exact products.congr (fits_plain_iff tuple variant sized).symm
    | some id =>
      have struct := (structs id (sizedStruct?_eq_some sized).2).1
      rw [elementSizeWith_sized sized]
      rw [← elementExtent_sized sized] at struct
      exact (struct.bind products).congr (fits_sized_iff sized).symm

end Types

section Structures

theorem fieldBase_eq (x : Struct) (f : StructId → Except Fault Nat) (size : Nat)
    (previous owner : Option FieldOwner) : fieldBase x f size previous owner =
      match fieldParent? x previous owner with
      | some parent => f parent
      | none => .ok size := by
  unfold fieldBase fieldParent?
  split
  · rcases previous with _ | ⟨parent | _⟩ <;> rfl
  · rfl

theorem fieldStart_eq (x : Struct) (g : StructId → Nat) (size : Nat)
    (previous owner : Option FieldOwner) : fieldStart x g size previous owner =
      match fieldParent? x previous owner with
      | some parent => g parent
      | none => size := by
  unfold fieldStart fieldParent?
  split
  · rcases previous with _ | ⟨parent | _⟩ <;> rfl
  · rfl

theorem checked_fieldBase (parents : ∀ parent ∈ fieldParent? x previous owner,
      Checked (f parent) (s.StructFits parent) (s.structExtent parent)) :
    Checked (fieldBase x f size previous owner)
      (∀ parent ∈ fieldParent? x previous owner, s.StructFits parent)
      (fieldStart x s.structExtent size previous owner) := by
  rw [fieldBase_eq, fieldStart_eq]
  cases hparent : fieldParent? x previous owner with
  | none => exact (checked_ok size).congr (by simp)
  | some parent => exact (parents parent hparent).congr (by simp)

/-- The end of the last of some fields is checked if the sizes that it asks are. -/
theorem checked_fieldsEnd
    (types : ∀ g ∈ fields, Checked (s.sizeWith f g.type) (s.Fits g.type) (s.extent g.type) ∧
      Answers (s.typeAlign g.type))
    (parents : ∀ parent ∈ s.fieldParents x previous fields,
      Checked (f parent) (s.StructFits parent) (s.structExtent parent)) :
    Checked (s.fieldsEnd x f size previous fields)
      ((∀ n ∈ s.fieldSums x size previous fields, n < sizeLimit) ∧
        (∀ g ∈ fields, s.Fits g.type) ∧
        ∀ parent ∈ s.fieldParents x previous fields, s.StructFits parent)
      (stopFrom size (s.fieldPlaces x s.structExtent size previous fields)) := by
  induction fields generalizing size previous with
  | nil => exact (checked_ok size).congr (by simp [fieldSums, fieldParents])
  | cons g after ih =>
    obtain ⟨⟨ht, align, halign⟩, types⟩ := List.forall_mem_cons.1 types
    simp only [fieldParents, List.forall_mem_append, Option.mem_toList] at parents ⊢
    simp only [fieldsEnd, fieldPlaces, fieldSums, List.forall_mem_cons]
    rw [halign, ← alignOf_of_ok halign]
    refine ((checked_fieldBase fun parent hparent => parents.1 parent hparent).bind
      ((checked_alignUp _ _).bind (ht.bind ((checked_addSizes _ _).bind
        (ih types parents.2))))).congr ?_
    constructor
    · rintro ⟨hparent, hstart, ht, hstop, hsums, hts, hparents⟩
      exact ⟨⟨hstart, hstop, hsums⟩, ⟨ht, hts⟩, hparent, hparents⟩
    · rintro ⟨⟨hstart, hstop, hsums⟩, ⟨ht, hts⟩, hparent, hparents⟩
      exact ⟨hparent, hstart, ht, hstop, hsums, hts, hparents⟩

/-- The size of a structure is checked as soon as the steps are enough for it. -/
theorem checked_structSizeIn (ends : WalksEnd s.Measures steps id) :
    Checked (s.structSizeIn steps id) (s.StructFits id) (s.structExtent id) := by
  have loops : ¬ Loops s.Measures id := fun loops => loops.not_walksEnd steps ends
  induction steps generalizing id with
  | zero => cases ends
  | succ steps ih =>
    obtain ⟨align, halign⟩ := answers_structAlign_of_measures ends
    have below (b : StructId) (hb : s.Measures id b) :
        Checked (s.structSizeIn steps b) (s.StructFits b) (s.structExtent b) :=
      ih (ends b hb) fun loops' => loops (loops'.head hb)
    unfold structSizeIn
    cases hx : s.struct? id with
    | none =>
      have extent : s.structExtent id = 0 := by rw [structExtent, structSteps, structExtentIn, hx]
      rw [extent]
      exact (checked_ok 0).congr (iff_of_true trivial (structFits_of_none hx))
    | some x =>
      have parents (parent : StructId) (h : parent ∈ s.fieldParents x none x.fields) :
          Checked (s.structSizeIn steps parent) (s.StructFits parent) (s.structExtent parent) :=
        below parent (.inr ((mem_fieldParents hx).1 h))
      have types (g : Field) (hg : g ∈ x.fields) :
          Checked (s.sizeWith (s.structSizeIn steps) g.type) (s.Fits g.type) (s.extent g.type) ∧
            Answers (s.typeAlign g.type) := by
        have held (b : StructId) (hb : b ∈ s.valueStructs g.type) : s.Measures id b :=
          .inl ⟨x, hx, g, hg, hb⟩
        have align (b : StructId) (hb : b ∈ s.valueStructs g.type) : Answers (s.structAlign b) :=
          answers_structAlign_of_measures (ends b (held b hb))
        exact ⟨checked_sizeWith fun b hb => ⟨below b (held b hb), align b hb⟩,
          answers_alignWith g.type |>.2 align⟩
      dsimp only
      rw [halign, ← structAlignOf_of_ok halign, structExtent_eq hx loops]
      exact Checked.congr ((checked_fieldsEnd types parents).bind (checked_alignUp _ _))
        (structFits_iff hx).symm

/-- A size has a result exactly if the numbers on the way fit words, and that is the exact one. -/
theorem checked_typeSize (h : ∀ id ∈ s.valueStructs t, ¬ Loops s.Measures id) :
    Checked (s.typeSize t) (s.Fits t) (s.extent t) := by
  have ends (id : StructId) (hid : id ∈ s.valueStructs t) :
      WalksEnd s.Measures s.structSteps id := walksEnd_measures (h id hid)
  exact checked_sizeWith fun id hid =>
    ⟨checked_structSizeIn (ends id hid), answers_structAlign_of_measures (ends id hid)⟩

end Structures

end Store

end Frontend
