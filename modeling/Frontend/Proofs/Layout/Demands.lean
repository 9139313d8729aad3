import Frontend.Proofs.Layout.Soundness

/-!
# What sizes ask

The size of a type asks those of the types that it is built of by value, and that of a parent where
a native layout starts behind it. Besides it makes sums, to give its parts their places and to pad
the whole, and products with one dimension after the other. A type fits if all these numbers, and
those of all types that are asked, fit words.
-/

namespace Frontend

/-- The sums that are made while things get their places from an offset on: to align each of them,
and to find where it ends. -/
def packSums : Nat → List Measure → List Nat
  | _, [] => []
  | start, m :: ms =>
    let p : Placement := ⟨roundUp start m.align, m.size⟩
    (start + max m.align 1) :: p.stop :: packSums p.stop ms

namespace Store

open Relation

section Numbers

/-- An element times its first dimensions fits a word, however many of them are taken. -/
def ProductsFit (element : Nat) (dims : List Int32) : Prop :=
  ∀ ds, ds <+: dims → ds ≠ [] → element * elementCount ds < sizeLimit

def sizedStruct? (s : Store) (t : Ty) : Option StructId :=
  match t.base with
  | .struct => s.liveStruct? t
  | .handle => s.boundStruct? t
  | _ => none

def fieldParent? (x : Struct) (previous owner : Option FieldOwner) : Option StructId :=
  if x.cppLayout && owner != previous && x.cppLayoutPod then
    match previous with
    | some (.parent id) => some id
    | _ => none
  else none

def fieldParents (s : Store) (x : Struct) : Option FieldOwner → List Field → List StructId
  | _, [] => []
  | previous, f :: fs =>
    let owner := if x.cppLayout then s.fieldOwner? x f.name else previous
    (fieldParent? x previous owner).toList ++ s.fieldParents x owner fs

def fieldSums (s : Store) (x : Struct) : Nat → Option FieldOwner → List Field → List Nat
  | _, _, [] => []
  | size, previous, f :: fs =>
    let owner := if x.cppLayout then s.fieldOwner? x f.name else previous
    let start := fieldStart x s.structExtent size previous owner
    let p : Placement := ⟨roundUp start (s.alignOf f.type), s.extent f.type⟩
    (start + max (s.alignOf f.type) 1) :: p.stop :: s.fieldSums x p.stop owner fs

def structSums (s : Store) (id : StructId) : List Nat :=
  match s.struct? id with
  | some x => s.fieldSums x 0 none x.fields
  | none => []

/-- What is padded to the size of a structure, with room to pad it. -/
def structReserve (s : Store) (id : StructId) : Nat :=
  match s.struct? id with
  | some x => stopFrom 0 (s.structPlaces x) + max (s.structAlignOf id) 1
  | none => 0

def payload (s : Store) (t : Ty) : Nat := (t.args.map s.extent).max?.getD 0

def placeSums (s : Store) (t : Ty) : List Nat :=
  match t.base with
  | .tuple => packSums 0 (t.args.map s.measure)
  | .variant => [4 + max (s.alignOf t) 1, s.payloadStart t + s.payload t]
  | _ => ((s.sizedStruct? t).map s.structSums).getD []

def reserve (s : Store) (t : Ty) : Nat :=
  match t.base with
  | .tuple => stopFrom 0 (pack 0 (t.args.map s.measure)) + max (s.alignOf t) 1
  | .variant => s.payloadStart t + s.payload t + max (s.alignOf t) 1
  | _ => ((s.sizedStruct? t).map s.structReserve).getD 0

/-- The numbers that come up in the size of a type fit words, but for those of its parts. -/
structure NumbersFit (s : Store) (t : Ty) : Prop where
  places : ∀ n ∈ s.placeSums t, n < sizeLimit
  padding : s.reserve t < sizeLimit
  products : ProductsFit (s.elementExtent t) t.dims

inductive AsksSize (s : Store) (t : Ty) : Ty → Prop
  | arg {u : Ty} (base : t.base = .tuple ∨ t.base = .variant) (hu : u ∈ t.args) : AsksSize s t u
  | field {id : StructId} {x : Struct} {f : Field} (sized : s.sizedStruct? t = some id)
    (hx : s.struct? id = some x) (hf : f ∈ x.fields) : AsksSize s t f.type
  | parent {id parent : StructId} (sized : s.sizedStruct? t = some id)
    (behind : s.StartsBehind id parent) : AsksSize s t (.struct parent)

def Fits (s : Store) (t : Ty) : Prop := ∀ u, ReflTransGen s.AsksSize t u → s.NumbersFit u

structure StructFits (s : Store) (id : StructId) : Prop where
  places : ∀ n ∈ s.structSums id, n < sizeLimit
  padding : s.structReserve id < sizeLimit
  fields : ∀ x, s.struct? id = some x → ∀ f ∈ x.fields, s.Fits f.type
  parents : ∀ parent, s.StartsBehind id parent → s.Fits (.struct parent)

end Numbers

variable {s : Store} {t u : Ty} {id parent : StructId} {x : Struct} {element : Nat} {name : String}
  {previous owner : Option FieldOwner} {fields : List Field}

section Dimensions

theorem productsFit_nil (element : Nat) : ProductsFit element [] := by
  intro ds first apart
  exact absurd (List.prefix_nil.1 first) apart

theorem productsFit_cons (element : Nat) (d : Int32) (dims : List Int32) :
    ProductsFit element (d :: dims) ↔
      element * d.toInt.toNat < sizeLimit ∧ ProductsFit (element * d.toInt.toNat) dims := by
  constructor
  · intro fits
    constructor
    · have := fits [d] (List.cons_prefix_cons.2 ⟨rfl, List.nil_prefix⟩) (List.cons_ne_nil _ _)
      rwa [elementCount_cons, elementCount, List.foldr_nil, Nat.mul_one] at this
    · intro ds first _
      have := fits (d :: ds) (List.cons_prefix_cons.2 ⟨rfl, first⟩) (List.cons_ne_nil _ _)
      rwa [elementCount_cons, ← Nat.mul_assoc] at this
  · rintro ⟨product, rest⟩ ds first apart
    obtain ⟨e, ds, rfl⟩ := List.exists_cons_of_ne_nil apart
    obtain ⟨rfl, inside⟩ := List.cons_prefix_cons.1 first
    rw [elementCount_cons, ← Nat.mul_assoc]
    by_cases nonempty : ds = []
    · rw [nonempty, elementCount, List.foldr_nil, Nat.mul_one]
      exact product
    · exact rest ds inside nonempty

end Dimensions

section Unfolding

theorem fits_iff : s.Fits t ↔ s.NumbersFit t ∧ ∀ u, s.AsksSize t u → s.Fits u := by
  constructor
  · exact fun fits => ⟨fits t .refl, fun u asks v hv => fits v (.head asks hv)⟩
  · rintro ⟨own, parts⟩ v hv
    obtain rfl | ⟨u, asks, hu⟩ := hv.cases_head
    · exact own
    · exact parts u asks v hu

theorem sizedStruct?_eq_some (sized : s.sizedStruct? t = some id) :
    (t.base = .struct ∨ t.base = .handle) ∧ id ∈ s.valueStructs t := by
  rw [valueStructs_eq]
  unfold sizedStruct? at sized
  cases base : t.base <;> rw [base] at sized <;> first
    | exact ⟨.inl rfl, Option.mem_toList.2 sized⟩
    | exact ⟨.inr rfl, Option.mem_toList.2 sized⟩
    | cases sized

theorem placeSums_other (tuple : t.base ≠ .tuple) (variant : t.base ≠ .variant) :
    s.placeSums t = ((s.sizedStruct? t).map s.structSums).getD [] := by
  unfold placeSums
  split
  · contradiction
  · contradiction
  · rfl

theorem reserve_other (tuple : t.base ≠ .tuple) (variant : t.base ≠ .variant) :
    s.reserve t = ((s.sizedStruct? t).map s.structReserve).getD 0 := by
  unfold reserve
  split
  · contradiction
  · contradiction
  · rfl

theorem base_ne_of_sized (sized : s.sizedStruct? t = some id) :
    t.base ≠ .tuple ∧ t.base ≠ .variant := by
  obtain ⟨base | base, -⟩ := sizedStruct?_eq_some sized <;> rw [base] <;> decide

theorem placeSums_sized (sized : s.sizedStruct? t = some id) :
    s.placeSums t = s.structSums id := by
  obtain ⟨tuple, variant⟩ := base_ne_of_sized sized
  rw [placeSums_other tuple variant, sized]
  rfl

theorem reserve_sized (sized : s.sizedStruct? t = some id) :
    s.reserve t = s.structReserve id := by
  obtain ⟨tuple, variant⟩ := base_ne_of_sized sized
  rw [reserve_other tuple variant, sized]
  rfl

theorem AsksSize.of_sized (asks : s.AsksSize t u) (sized : s.sizedStruct? t = some id) :
    (∃ x, s.struct? id = some x ∧ ∃ f ∈ x.fields, u = f.type) ∨
      ∃ parent, s.StartsBehind id parent ∧ u = .struct parent := by
  obtain ⟨tuple, variant⟩ := base_ne_of_sized sized
  rcases asks with ⟨base | base, -⟩ | ⟨sized', hx, hf⟩ | ⟨sized', behind⟩
  · exact absurd base tuple
  · exact absurd base variant
  · cases sized.symm.trans sized'
    exact .inl ⟨_, hx, _, hf, rfl⟩
  · cases sized.symm.trans sized'
    exact .inr ⟨_, behind, rfl⟩

theorem AsksSize.of_args (asks : s.AsksSize t u) (base : t.base = .tuple ∨ t.base = .variant) :
    u ∈ t.args := by
  rcases asks with ⟨-, hu⟩ | ⟨sized, -⟩ | ⟨sized, -⟩
  · exact hu
  all_goals
    obtain ⟨tuple, variant⟩ := base_ne_of_sized sized
    exact absurd base (not_or.2 ⟨tuple, variant⟩)

theorem not_asksSize (tuple : t.base ≠ .tuple) (variant : t.base ≠ .variant)
    (sized : s.sizedStruct? t = none) : ¬ s.AsksSize t u := by
  rintro (⟨base | base, -⟩ | ⟨sized', -⟩ | ⟨sized', -⟩)
  · exact tuple base
  · exact variant base
  all_goals
    rw [sized] at sized'
    cases sized'

/-- A type with the size of a structure asks what the structure does. -/
theorem fits_sized_iff (sized : s.sizedStruct? t = some id) :
    s.Fits t ↔ s.StructFits id ∧ ProductsFit (s.elementExtent t) t.dims := by
  rw [fits_iff]
  constructor
  · rintro ⟨⟨places, padding, products⟩, parts⟩
    rw [placeSums_sized sized] at places
    rw [reserve_sized sized] at padding
    exact ⟨⟨places, padding, fun x hx f hf => parts _ (.field sized hx hf),
      fun parent behind => parts _ (.parent sized behind)⟩, products⟩
  · rintro ⟨⟨places, padding, fields, parents⟩, products⟩
    rw [← placeSums_sized sized] at places
    rw [← reserve_sized sized] at padding
    refine ⟨⟨places, padding, products⟩, fun u asks => ?_⟩
    obtain ⟨x, hx, f, hf, rfl⟩ | ⟨parent, behind, rfl⟩ := asks.of_sized sized
    · exact fields x hx f hf
    · exact parents parent behind

theorem fits_tuple_iff (base : t.base = .tuple) : s.Fits t ↔
    (((∀ n ∈ packSums 0 (t.args.map s.measure), n < sizeLimit) ∧ ∀ u ∈ t.args, s.Fits u) ∧
      s.reserve t < sizeLimit) ∧ ProductsFit (s.elementExtent t) t.dims := by
  have sums : s.placeSums t = packSums 0 (t.args.map s.measure) := by rw [placeSums, base]
  rw [fits_iff, ← sums]
  constructor
  · rintro ⟨⟨places, padding, products⟩, parts⟩
    exact ⟨⟨⟨places, fun u hu => parts u (.arg (.inl base) hu)⟩, padding⟩, products⟩
  · rintro ⟨⟨⟨places, args⟩, padding⟩, products⟩
    exact ⟨⟨places, padding, products⟩, fun u asks => args u (asks.of_args (.inl base))⟩

theorem fits_variant_iff (base : t.base = .variant) : s.Fits t ↔
    ((∀ u ∈ t.args, s.Fits u) ∧ 4 + max (s.alignOf t) 1 < sizeLimit ∧
      s.payloadStart t + s.payload t < sizeLimit ∧ s.reserve t < sizeLimit) ∧
      ProductsFit (s.elementExtent t) t.dims := by
  have sums : s.placeSums t = [4 + max (s.alignOf t) 1, s.payloadStart t + s.payload t] := by
    rw [placeSums, base]
  rw [fits_iff]
  constructor
  · rintro ⟨⟨places, padding, products⟩, parts⟩
    rw [sums, List.forall_mem_cons, List.forall_mem_singleton] at places
    exact ⟨⟨fun u hu => parts u (.arg (.inr base) hu), places.1, places.2, padding⟩, products⟩
  · rintro ⟨⟨args, index, places, padding⟩, products⟩
    refine ⟨⟨?_, padding, products⟩, fun u asks => args u (asks.of_args (.inr base))⟩
    rw [sums, List.forall_mem_cons, List.forall_mem_singleton]
    exact ⟨index, places⟩

/-- An element without parts asks nothing. -/
theorem fits_plain_iff (tuple : t.base ≠ .tuple) (variant : t.base ≠ .variant)
    (sized : s.sizedStruct? t = none) :
    s.Fits t ↔ ProductsFit (s.elementExtent t) t.dims := by
  rw [fits_iff]
  refine ⟨fun fits => fits.1.products, fun products =>
    ⟨⟨?_, ?_, products⟩, fun u asks => absurd asks (not_asksSize tuple variant sized)⟩⟩
  · rw [placeSums_other tuple variant, sized]
    exact fun _ hn => absurd hn List.not_mem_nil
  · rw [reserve_other tuple variant, sized]
    exact Nat.two_pow_pos 64

theorem exists_parent (h : s.fieldOwner? x name = some (.parent parent)) :
    ∃ y, s.struct? parent = some y := by
  unfold fieldOwner? at h
  split at h
  · rename_i y hparent found
    rw [hparent, Option.bind_some, Option.bind_eq_some_iff] at found
    obtain ⟨z, hz, -⟩ := found
    cases h
    exact ⟨z, hz⟩
  · simp at h

/-- What the size of a type asks does not come to ask itself. -/
def Grounded (s : Store) (t : Ty) : Prop := ∀ id ∈ s.valueStructs t, ¬ Loops s.Measures id

theorem Grounded.answers (h : s.Grounded t) : Answers (s.typeAlign t) :=
  answers_alignWith t |>.2 fun id hid =>
    answers_structAlign_of_measures (walksEnd_measures (h id hid))

theorem Grounded.of_asks (h : s.Grounded t) (asks : s.AsksSize t u) : s.Grounded u := by
  cases asks with
  | arg base hu =>
    have args : ∀ id ∈ s.valueStructsList t.args, ¬ Loops s.Measures id := by
      rcases base with base | base <;> simpa only [Grounded, valueStructs_eq, base] using h
    exact forall_mem_valueStructsList.1 args u hu
  | field sized hx hf =>
    intro b hb loops
    exact h _ (sizedStruct?_eq_some sized).2 (loops.head (.inl ⟨_, hx, _, hf, hb⟩))
  | @parent id parent sized behind =>
    intro b hb loops
    have same : b = parent := by
      obtain ⟨x, -, -, -, before, f, g, after, -, owner, -⟩ := behind
      obtain ⟨y, hy⟩ := exists_parent owner
      simpa [valueStructs_struct hy] using hb
    exact h _ (sizedStruct?_eq_some sized).2 (loops.head (same ▸ .inr behind))

end Unfolding

section Structures

theorem StartsBehind.fits_iff (behind : s.StartsBehind id parent) :
    s.Fits (.struct parent) ↔ s.StructFits parent := by
  obtain ⟨x, -, -, -, before, f, g, after, -, owner, -⟩ := behind
  obtain ⟨y, hy⟩ := exists_parent owner
  have live : s.liveStruct? (.struct parent) = some parent :=
    Option.filter_eq_some_iff.2 ⟨rfl, Option.isSome_iff_exists.2 ⟨y, hy⟩⟩
  have sized : s.sizedStruct? (.struct parent) = some parent := live
  exact (fits_sized_iff sized).trans (and_iff_left (productsFit_nil _))

theorem fieldParent?_eq_some : fieldParent? x previous owner = some parent ↔
    x.cppLayout = true ∧ x.cppLayoutPod = true ∧ previous = some (.parent parent) ∧
      owner ≠ some (.parent parent) := by
  unfold fieldParent?
  split
  · rename_i changes
    simp only [Bool.and_eq_true, bne_iff_ne] at changes
    obtain ⟨⟨cpp, apart⟩, pod⟩ := changes
    rcases previous with _ | ⟨other | _⟩
    · simp
    · constructor
      · rintro ⟨⟩
        exact ⟨cpp, pod, rfl, apart⟩
      · rintro ⟨-, -, same, -⟩
        cases same
        rfl
    · simp
  · rename_i stays
    refine iff_of_false nofun ?_
    rintro ⟨cpp, pod, rfl, apart⟩
    exact stays (by simp [cpp, pod, apart])

/-- A parent that one of some fields starts behind. The first of them may do so because of what
comes before it. -/
theorem exists_split_of_mem_fieldParents (h : parent ∈ s.fieldParents x previous fields) :
    x.cppLayout = true ∧ x.cppLayoutPod = true ∧
      ((previous = some (.parent parent) ∧ ∃ g after, fields = g :: after ∧
        s.fieldOwner? x g.name ≠ some (.parent parent)) ∨
      ∃ before f g after, fields = before ++ f :: g :: after ∧
        s.fieldOwner? x f.name = some (.parent parent) ∧
        s.fieldOwner? x g.name ≠ some (.parent parent)) := by
  induction fields generalizing previous with
  | nil => cases h
  | cons f fields ih =>
    rcases List.mem_append.1 h with here | later
    · obtain ⟨cpp, pod, hprevious, apart⟩ := fieldParent?_eq_some.1 (Option.mem_toList.1 here)
      rw [if_pos cpp] at apart
      exact ⟨cpp, pod, .inl ⟨hprevious, f, fields, rfl, apart⟩⟩
    · obtain ⟨cpp, pod,
        ⟨owner, g, after, rfl, apart⟩ | ⟨before, f', g, after, rfl, owner, apart⟩⟩ :=
        ih later
      · rw [if_pos cpp] at owner
        exact ⟨cpp, pod, .inr ⟨[], f, g, after, rfl, owner, apart⟩⟩
      · exact ⟨cpp, pod, .inr ⟨f :: before, f', g, after, rfl, owner, apart⟩⟩

theorem mem_fieldParents_of_split {before after : List Field} {g h : Field}
    (cpp : x.cppLayout = true) (pod : x.cppLayoutPod = true)
    (owner : s.fieldOwner? x g.name = some (.parent parent))
    (apart : s.fieldOwner? x h.name ≠ some (.parent parent)) :
    parent ∈ s.fieldParents x previous (before ++ g :: h :: after) := by
  induction before generalizing previous with
  | nil =>
    refine List.mem_append_right _ (List.mem_append_left _ (Option.mem_toList.2 ?_))
    exact fieldParent?_eq_some.2 ⟨cpp, pod, by rw [if_pos cpp, owner], by rwa [if_pos cpp]⟩
  | cons e before ih => exact List.mem_append_right _ ih

/-- The parents that the search for places comes by are those that the layout is defined by. -/
theorem mem_fieldParents (hx : s.struct? id = some x) :
    parent ∈ s.fieldParents x none x.fields ↔ s.StartsBehind id parent := by
  constructor
  · intro h
    obtain ⟨cpp, pod, ⟨none, -⟩ | ⟨before, f, g, after, split, owner, apart⟩⟩ :=
      exists_split_of_mem_fieldParents h
    · cases none
    · exact ⟨x, hx, cpp, pod, before, f, g, after, split, owner, apart⟩
  · rintro ⟨y, hy, cpp, pod, before, f, g, after, split, owner, apart⟩
    cases hx.symm.trans hy
    rw [split]
    exact mem_fieldParents_of_split cpp pod owner apart

theorem structFits_iff (hx : s.struct? id = some x) : s.StructFits id ↔
    ((∀ n ∈ s.fieldSums x 0 none x.fields, n < sizeLimit) ∧ (∀ f ∈ x.fields, s.Fits f.type) ∧
      ∀ parent ∈ s.fieldParents x none x.fields, s.StructFits parent) ∧
    stopFrom 0 (s.structPlaces x) + max (s.structAlignOf id) 1 < sizeLimit := by
  have sums : s.structSums id = s.fieldSums x 0 none x.fields := by rw [structSums, hx]
  have room : s.structReserve id =
      stopFrom 0 (s.structPlaces x) + max (s.structAlignOf id) 1 := by rw [structReserve, hx]
  rw [← sums, ← room]
  constructor
  · rintro ⟨places, padding, fields, parents⟩
    refine ⟨⟨places, fields x hx, fun parent h => ?_⟩, padding⟩
    have behind := (mem_fieldParents hx).1 h
    exact behind.fits_iff.1 (parents parent behind)
  · rintro ⟨⟨places, fields, parents⟩, padding⟩
    refine ⟨places, padding, fun y hy => ?_, fun parent behind => ?_⟩
    · cases hx.symm.trans hy
      exact fields
    · exact behind.fits_iff.2 (parents parent ((mem_fieldParents hx).2 behind))

theorem structFits_of_none (hx : s.struct? id = none) : s.StructFits id := by
  refine ⟨?_, ?_, ?_, ?_⟩
  · rw [structSums, hx]
    exact fun _ hn => absurd hn List.not_mem_nil
  · rw [structReserve, hx]
    exact Nat.two_pow_pos 64
  · intro x hx'
    cases hx.symm.trans hx'
  · rintro parent ⟨x, hx', -⟩
    cases hx.symm.trans hx'

end Structures

end Store

end Frontend
