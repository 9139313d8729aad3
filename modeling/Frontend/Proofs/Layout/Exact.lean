import Frontend.Proofs.Layout.Alignment
import Frontend.Proofs.Layout.Packing

/-!
# Layout in exact numbers

Sizes without the bound of a word: the extent of a type and of a structure, and the places of the
fields of a structure and of the elements of a tuple. Whenever sizes in words have a result it is
the exact one.
-/

namespace Frontend

/-- Whether own fields start behind the whole of a parent. -/
def Struct.isNative (x : Struct) : Bool := x.cppLayout && x.cppLayoutPod

theorem Struct.isNative_eq_false {x : Struct} (h : x.cppLayout = false) : x.isNative = false := by
  rw [isNative, h, Bool.false_and]

namespace Store

/-- The number of elements of fixed dimensions; one that is still to be inferred counts as zero. -/
def elementCount (dims : List Int32) : Nat := dims.foldr (fun d count => d.toInt.toNat * count) 1

def annotExtent (s : Store) (ofStruct : StructId → Nat) (t : Ty) : Nat :=
  match s.boundStruct? t with
  | some id => ofStruct id
  | none => s.ownMeasure t (fun size _ _ => size) 0

mutual

/-- The exact size of an element of an array with the dimensions of a type, or of a value without
any, given the sizes of structures. -/
def elementExtentWith (s : Store) (ofStruct : StructId → Nat) : Ty → Nat
  | t@{ args, .. } =>
    match t.base.size? with
    | some size => size
    | none =>
      match t.base with
      | .struct => ((s.liveStruct? t).map ofStruct).getD 0
      | .handle => s.annotExtent ofStruct t
      | .tuple => roundUp (stopFrom 0 (pack 0 (s.measuresWith ofStruct args))) (s.alignOf t)
      | .variant =>
        let payload := ((s.measuresWith ofStruct args).map (·.size)).max?.getD 0
        roundUp (roundUp 4 (s.alignOf t) + payload) (s.alignOf t)
      | _ => 0

def measuresWith (s : Store) (ofStruct : StructId → Nat) : List Ty → List Measure
  | [] => []
  | t :: ts =>
    ⟨s.elementExtentWith ofStruct t * elementCount t.dims, s.alignOf t⟩ ::
      s.measuresWith ofStruct ts

end

def extentWith (s : Store) (ofStruct : StructId → Nat) (t : Ty) : Nat :=
  s.elementExtentWith ofStruct t * elementCount t.dims

def fieldStart (x : Struct) (ofStruct : StructId → Nat) (size : Nat)
    (previous owner : Option FieldOwner) : Nat :=
  if x.cppLayout && owner != previous && x.cppLayoutPod then
    match previous with
    | some (.parent id) => ofStruct id
    | _ => size
  else size

/-- The places of fields that start at offset `size`, after fields of the owner `previous`. -/
def fieldPlaces (s : Store) (x : Struct) (ofStruct : StructId → Nat) :
    Nat → Option FieldOwner → List Field → List Placement
  | _, _, [] => []
  | size, previous, f :: fs =>
    let owner := if x.cppLayout then s.fieldOwner? x f.name else previous
    let start := fieldStart x ofStruct size previous owner
    let p : Placement := ⟨roundUp start (s.alignOf f.type), s.extentWith ofStruct f.type⟩
    p :: s.fieldPlaces x ofStruct p.stop owner fs

def structExtentIn (s : Store) : Nat → StructId → Nat
  | 0, _ => 0
  | steps + 1, id =>
    match s.struct? id with
    | none => 0
    | some x =>
      roundUp (stopFrom 0 (s.fieldPlaces x (s.structExtentIn steps) 0 none x.fields))
        (s.structAlignOf id)

def structExtent (s : Store) (id : StructId) : Nat := s.structExtentIn s.structSteps id

def elementExtent (s : Store) (t : Ty) : Nat := s.elementExtentWith s.structExtent t

def extent (s : Store) (t : Ty) : Nat := s.extentWith s.structExtent t

def measure (s : Store) (t : Ty) : Measure := ⟨s.extent t, s.alignOf t⟩

def fieldMeasures (s : Store) (fields : List Field) : List Measure :=
  fields.map fun f => s.measure f.type

def structPlaces (s : Store) (x : Struct) : List Placement :=
  s.fieldPlaces x s.structExtent 0 none x.fields

variable {s : Store} {t : Ty} {ts : List Ty} {id : StructId} {x : Struct} {n steps size : Nat}
  {f : StructId → Except Fault Nat} {g h : StructId → Nat} {previous : Option FieldOwner}
  {fields : List Field}

theorem elementExtentWith_eq (s : Store) (g : StructId → Nat) (t : Ty) :
    s.elementExtentWith g t =
      match t.base.size? with
      | some size => size
      | none =>
        match t.base with
        | .struct => ((s.liveStruct? t).map g).getD 0
        | .handle => s.annotExtent g t
        | .tuple => roundUp (stopFrom 0 (pack 0 (s.measuresWith g t.args))) (s.alignOf t)
        | .variant =>
          roundUp (roundUp 4 (s.alignOf t) +
            ((s.measuresWith g t.args).map (·.size)).max?.getD 0) (s.alignOf t)
        | _ => 0 := by
  obtain ⟨⟩ := t
  rfl

theorem measuresWith_eq (s : Store) (g : StructId → Nat) (ts : List Ty) :
    s.measuresWith g ts = ts.map fun t => ⟨s.extentWith g t, s.alignOf t⟩ := by
  induction ts with
  | nil => rfl
  | cons t ts ih =>
    rw [measuresWith, ih]
    rfl

section Words

/-- What is known of structures in words is exact. -/
def Exactly (f : StructId → Except Fault Nat) (g : StructId → Nat) : Prop :=
  ∀ id n, f id = .ok n → n = g id

theorem eq_of_mulSizes {a b : Nat} (hmul : mulSizes a b = .ok n) : n = a * b := by
  unfold mulSizes at hmul
  split at hmul <;> cases hmul
  rfl

theorem eq_of_addSizes {a b : Nat} (hadd : addSizes a b = .ok n) : n = a + b := by
  unfold addSizes at hadd
  split at hadd <;> cases hadd
  rfl

theorem elementCount_cons (d : Int32) (dims : List Int32) :
    elementCount (d :: dims) = d.toInt.toNat * elementCount dims := rfl

theorem eq_of_dimsSize {element : Nat} {dims : List Int32}
    (hdims : dimsSize element dims = .ok n) : n = element * elementCount dims := by
  induction dims generalizing element with
  | nil =>
    cases hdims
    exact (Nat.mul_one n).symm
  | cons d dims ih =>
    obtain ⟨product, hproduct, hrest⟩ := ok_of_bind hdims
    rw [ih hrest, eq_of_mulSizes hproduct, elementCount_cons, Nat.mul_assoc]

theorem eq_of_annotMeasure (exact : Exactly f g)
    (hannot : s.annotMeasure t (fun size _ _ => size) f 0 = .ok n) : n = s.annotExtent g t := by
  rw [annotMeasure_eq] at hannot
  unfold annotExtent
  cases bound : s.boundStruct? t with
  | none =>
    rw [bound] at hannot
    cases hannot
    rfl
  | some id =>
    rw [bound] at hannot
    exact exact id n hannot

theorem eq_of_tupleSizeWith
    (each : ∀ t ∈ ts, ∀ n, s.sizeWith f t = .ok n → n = s.extentWith g t)
    (htuple : s.tupleSizeWith f size ts = .ok n) :
    n = stopFrom size (pack size (s.measuresWith g ts)) := by
  induction ts generalizing size with
  | nil =>
    cases htuple
    rfl
  | cons t ts ih =>
    obtain ⟨ht, hts⟩ := List.forall_mem_cons.1 each
    obtain ⟨align, halign, htuple⟩ := ok_of_bind htuple
    obtain ⟨start, hstart, htuple⟩ := ok_of_bind htuple
    obtain ⟨element, helement, htuple⟩ := ok_of_bind htuple
    obtain ⟨stop, hstop, htuple⟩ := ok_of_bind htuple
    rw [ih hts htuple, eq_of_addSizes hstop, ht element helement, eq_of_alignUp hstart,
      ← alignOf_of_ok halign]
    rfl

theorem eq_of_sizesWith {sizes : List Nat}
    (each : ∀ t ∈ ts, ∀ n, s.sizeWith f t = .ok n → n = s.extentWith g t)
    (hsizes : s.sizesWith f ts = .ok sizes) :
    sizes = (s.measuresWith g ts).map (·.size) := by
  induction ts generalizing sizes with
  | nil =>
    cases hsizes
    rfl
  | cons t ts ih =>
    obtain ⟨ht, hts⟩ := List.forall_mem_cons.1 each
    obtain ⟨first, hfirst, hsizes⟩ := ok_of_bind hsizes
    obtain ⟨rest, hrest, hsizes⟩ := ok_of_bind hsizes
    cases hsizes
    rw [ht first hfirst, ih hts hrest]
    rfl

/-- The size of a type in words is exact if those of structures are. -/
theorem eq_of_sizeWith (exact : Exactly f g) (hsize : s.sizeWith f t = .ok n) :
    n = s.extentWith g t := by
  induction t using Ty.induction_args generalizing n with
  | step t ih =>
    have args : ∀ u ∈ t.args, ∀ n, s.sizeWith f u = .ok n → n = s.extentWith g u :=
      fun u hu n hn => ih u hu hn
    rw [sizeWith_eq] at hsize
    obtain ⟨element, helement, hdims⟩ := ok_of_bind hsize
    rw [eq_of_dimsSize hdims, extentWith]
    congr 1
    rw [elementExtentWith_eq]
    unfold elementSizeWith at helement
    cases base : t.base <;> rw [base] at helement
    case struct =>
      cases live : s.liveStruct? t with
      | none =>
        rw [live] at helement
        cases helement
        rfl
      | some id =>
        rw [live] at helement
        exact exact id element helement
    case handle => exact eq_of_annotMeasure exact helement
    case tuple =>
      obtain ⟨stop, hstop, helement⟩ := ok_of_bind helement
      obtain ⟨align, halign, helement⟩ := ok_of_bind helement
      rw [eq_of_alignUp helement, eq_of_tupleSizeWith args hstop, ← alignOf_of_ok halign]
      rfl
    case variant =>
      obtain ⟨sizes, hsizes, helement⟩ := ok_of_bind helement
      obtain ⟨align, halign, helement⟩ := ok_of_bind helement
      obtain ⟨start, hstart, helement⟩ := ok_of_bind helement
      obtain ⟨stop, hstop, helement⟩ := ok_of_bind helement
      rw [eq_of_alignUp helement, eq_of_addSizes hstop, eq_of_alignUp hstart,
        eq_of_sizesWith args hsizes, ← alignOf_of_ok halign]
      rfl
    all_goals
      cases helement
      rfl

theorem eq_of_fieldBase {owner : Option FieldOwner} (exact : Exactly f g)
    (hbase : fieldBase x f size previous owner = .ok n) :
    n = fieldStart x g size previous owner := by
  unfold fieldBase at hbase
  unfold fieldStart
  split at hbase
  · rename_i native
    rw [if_pos native]
    cases previous with
    | none =>
      cases hbase
      rfl
    | some owner =>
      cases owner with
      | parent id => exact exact id n hbase
      | this =>
        cases hbase
        rfl
  · rename_i plain
    rw [if_neg plain]
    cases hbase
    rfl

/-- So is the running offset behind any of the fields. -/
theorem eq_of_fieldsEnd (exact : Exactly f g)
    (hend : s.fieldsEnd x f size previous fields = .ok n) :
    n = stopFrom size (s.fieldPlaces x g size previous fields) := by
  induction fields generalizing size previous with
  | nil =>
    cases hend
    rfl
  | cons first rest ih =>
    obtain ⟨base, hbase, hend⟩ := ok_of_bind hend
    obtain ⟨align, halign, hend⟩ := ok_of_bind hend
    obtain ⟨start, hstart, hend⟩ := ok_of_bind hend
    obtain ⟨element, helement, hend⟩ := ok_of_bind hend
    obtain ⟨stop, hstop, hend⟩ := ok_of_bind hend
    rw [ih hend, eq_of_addSizes hstop, eq_of_sizeWith exact helement, eq_of_alignUp hstart,
      eq_of_fieldBase exact hbase, ← alignOf_of_ok halign]
    rfl

section Plain

theorem not_behind_parent {owner : Option FieldOwner} (plain : x.isNative = false) :
    ¬ (x.cppLayout && owner != previous && x.cppLayoutPod) = true := by
  intro changes
  simp only [Bool.and_eq_true] at changes
  rw [Struct.isNative, changes.1.1, changes.2] at plain
  cases plain

/-- Without a native layout fields are laid out as the elements of a tuple are. -/
theorem fieldsEnd_plain (plain : x.isNative = false) : s.fieldsEnd x f size previous fields =
    s.tupleSizeWith f size (fields.map (·.type)) := by
  induction fields generalizing size previous with
  | nil => rfl
  | cons first rest ih =>
    have base (owner : Option FieldOwner) : fieldBase x f size previous owner = .ok size :=
      if_neg (not_behind_parent plain)
    simp only [fieldsEnd, List.map_cons, tupleSizeWith, base, ih]
    rfl

theorem fieldPlaces_plain (plain : x.isNative = false) : s.fieldPlaces x g size previous fields =
    pack size (fields.map fun f => ⟨s.extentWith g f.type, s.alignOf f.type⟩) := by
  induction fields generalizing size previous with
  | nil => rfl
  | cons first rest ih =>
    have start (owner : Option FieldOwner) : fieldStart x g size previous owner = size :=
      if_neg (not_behind_parent plain)
    simp only [fieldPlaces, List.map_cons, pack, start, ih]

theorem structPlaces_plain (plain : x.isNative = false) :
    s.structPlaces x = pack 0 (s.fieldMeasures x.fields) := fieldPlaces_plain plain

end Plain

/-- The size of a structure in words is exact, with as many steps or more. -/
theorem exactly_structSizeIn {more : Nat} (hmore : steps ≤ more) :
    Exactly (s.structSizeIn steps) (s.structExtentIn more) := by
  induction steps generalizing more with
  | zero => nofun
  | succ steps ih =>
    intro id n hn
    obtain ⟨more, rfl⟩ : ∃ k, more = k + 1 := ⟨more - 1, by omega⟩
    unfold structSizeIn at hn
    unfold structExtentIn
    cases hx : s.struct? id with
    | none =>
      rw [hx] at hn
      cases hn
      rfl
    | some x =>
      rw [hx] at hn
      obtain ⟨stop, hstop, hn⟩ := ok_of_bind hn
      obtain ⟨align, halign, hn⟩ := ok_of_bind hn
      have exact : Exactly (s.structSizeIn steps) (s.structExtentIn more) := ih (by omega)
      dsimp only
      rw [eq_of_alignUp hn, eq_of_fieldsEnd exact hstop, ← structAlignOf_of_ok halign]

theorem eq_of_typeSize (hn : s.typeSize t = .ok n) : n = s.extent t :=
  eq_of_sizeWith (exactly_structSizeIn (Nat.le_refl _)) hn

/-- A structure whose size has a result ends, padded, where its fields end. -/
theorem eq_of_structSize (hx : s.struct? id = some x) (hn : s.structSize id = .ok n) :
    n = roundUp (stopFrom 0 (s.structPlaces x)) (s.structAlignOf id) ∧ n = s.structExtent id := by
  constructor
  · unfold structSize structSteps structSizeIn at hn
    rw [hx] at hn
    obtain ⟨stop, hstop, hn⟩ := ok_of_bind hn
    obtain ⟨align, halign, hn⟩ := ok_of_bind hn
    have exact : Exactly (s.structSizeIn s.structs.slots.size) s.structExtent :=
      exactly_structSizeIn (Nat.le_succ _)
    rw [eq_of_alignUp hn, eq_of_fieldsEnd exact hstop, ← structAlignOf_of_ok halign]
    rfl
  · exact exactly_structSizeIn (Nat.le_refl _) id n hn

end Words

section Settled

variable {before : List Field}

theorem annotExtent_congr (same : ∀ id, s.boundStruct? t = some id → g id = h id) :
    s.annotExtent g t = s.annotExtent h t := by
  unfold annotExtent
  cases bound : s.boundStruct? t with
  | none => rfl
  | some id => exact same id bound

/-- The size of a type asks those of the structures that it holds by value. -/
theorem extentWith_congr (same : ∀ id ∈ s.valueStructs t, g id = h id) :
    s.extentWith g t = s.extentWith h t := by
  induction t using Ty.induction_args with
  | step t ih =>
    have args (hargs : ∀ id ∈ s.valueStructsList t.args, g id = h id) :
        s.measuresWith g t.args = s.measuresWith h t.args := by
      rw [measuresWith_eq, measuresWith_eq]
      refine List.map_congr_left fun u hu => ?_
      rw [ih u hu (forall_mem_valueStructsList.1 hargs u hu)]
    have element : s.elementExtentWith g t = s.elementExtentWith h t := by
      rw [elementExtentWith_eq, elementExtentWith_eq]
      rw [valueStructs_eq] at same
      cases base : t.base <;> rw [base] at same
      case struct =>
        cases live : s.liveStruct? t with
        | none => rfl
        | some id => exact same id (by simp [live])
      case handle => exact annotExtent_congr fun id bound => same id (by simp [bound])
      case tuple => rw [args same]
      case variant => rw [args same]
    rw [extentWith, extentWith, element]

theorem fieldStart_congr {owner : Option FieldOwner}
    (same : x.cppLayout = true → x.cppLayoutPod = true → ∀ parent,
      previous = some (.parent parent) → owner ≠ some (.parent parent) → g parent = h parent) :
    fieldStart x g size previous owner = fieldStart x h size previous owner := by
  unfold fieldStart
  split
  · rename_i changes
    simp only [Bool.and_eq_true, bne_iff_ne] at changes
    obtain ⟨⟨cpp, apart⟩, pod⟩ := changes
    split
    · rename_i parent
      exact same cpp pod parent rfl apart
    · rfl
  · rfl

/-- The places of the fields behind `before` ask the structures that their types hold, and the
parent if they start behind it. An owner that is remembered is that of the last field before
them. -/
theorem fieldPlaces_congr (split : x.fields = before ++ fields)
    (last : x.cppLayout = true → ∀ parent, previous = some (.parent parent) →
      ∃ init f, before = init ++ [f] ∧ s.fieldOwner? x f.name = some (.parent parent))
    (types : ∀ f ∈ fields, s.extentWith g f.type = s.extentWith h f.type)
    (parents : x.cppLayout = true → x.cppLayoutPod = true → ∀ parent before e f after,
      x.fields = before ++ e :: f :: after → s.fieldOwner? x e.name = some (.parent parent) →
      s.fieldOwner? x f.name ≠ some (.parent parent) → g parent = h parent) :
    s.fieldPlaces x g size previous fields = s.fieldPlaces x h size previous fields := by
  induction fields generalizing size previous before with
  | nil => rfl
  | cons f after ih =>
    obtain ⟨htype, types⟩ := List.forall_mem_cons.1 types
    have split' : x.fields = before ++ [f] ++ after := by simpa using split
    have start : fieldStart x g size previous
          (if x.cppLayout then s.fieldOwner? x f.name else previous) =
        fieldStart x h size previous
          (if x.cppLayout then s.fieldOwner? x f.name else previous) := by
      refine fieldStart_congr fun cpp pod parent hprevious apart => ?_
      obtain ⟨init, e, rfl, owner⟩ := last cpp parent hprevious
      rw [if_pos cpp] at apart
      exact parents cpp pod parent init e f after (by simpa using split) owner apart
    simp only [fieldPlaces, start, htype]
    rw [ih split' (fun cpp parent owner => ?_) types]
    rw [if_pos cpp] at owner
    exact ⟨before, f, rfl, owner⟩

/-- The places of the fields of a structure ask the structures that the size asks. -/
theorem fieldPlaces_of_measures (hx : s.struct? id = some x)
    (same : ∀ b, s.Measures id b → g b = h b) :
    s.fieldPlaces x g 0 none x.fields = s.fieldPlaces x h 0 none x.fields := by
  refine fieldPlaces_congr (List.nil_append x.fields).symm (fun _ _ h => by cases h) ?_ ?_
  · exact fun f hf => extentWith_congr fun b hb => same b (.inl ⟨x, hx, f, hf, hb⟩)
  · exact fun cpp pod parent before e f after split owner apart =>
      same parent (.inr ⟨x, hx, cpp, pod, before, e, f, after, split, owner, apart⟩)

/-- More steps than enough do not change a size. -/
theorem structExtentIn_settled {more : Nat} (ends : WalksEnd s.Measures steps id)
    (hmore : steps ≤ more) : s.structExtentIn more id = s.structExtentIn steps id := by
  induction steps generalizing more id with
  | zero => cases ends
  | succ steps ih =>
    obtain ⟨more, rfl⟩ : ∃ k, more = k + 1 := ⟨more - 1, by omega⟩
    unfold structExtentIn
    cases hx : s.struct? id with
    | none => rfl
    | some x =>
      dsimp only
      rw [fieldPlaces_of_measures hx fun b hb => ih (ends b hb) (by omega)]

/-- A structure whose size does not come to ask itself is as large as its fields ask for. -/
theorem structExtent_eq (hx : s.struct? id = some x) (hloops : ¬ Loops s.Measures id) :
    s.structExtent id = roundUp (stopFrom 0 (s.structPlaces x)) (s.structAlignOf id) := by
  have ends : WalksEnd s.Measures (s.structs.slots.size + 1) id := walksEnd_measures hloops
  have places : s.fieldPlaces x (s.structExtentIn s.structs.slots.size) 0 none x.fields =
      s.structPlaces x :=
    fieldPlaces_of_measures hx fun b hb => (structExtentIn_settled (ends b hb) (Nat.le_succ _)).symm
  rw [structExtent, structSteps, structExtentIn, hx]
  dsimp only
  rw [places]

end Settled

end Store

end Frontend
