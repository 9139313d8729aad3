import Frontend.Proofs.Layout.Exact

/-!
# Layouts are sound

A type is regular if it is built up by value, and never from itself, from base types, tuples,
variants, structures of no native layout, and handled types whose sizes are multiples of alignments
that are powers of two. Such a type has a power of two for its alignment and a multiple of that for
its size. What it consists of lies in places that are aligned, apart from each other and within that
size.
-/

namespace Frontend

theorem BaseType.exists_align? {b : BaseType} {size : Nat} (h : b.size? = some size) :
    ∃ align, b.align? = some align ∧ align.isPowerOfTwo ∧ align ∣ size := by
  have each : ∀ b ∈ BaseType.all, ∀ size ∈ b.size?, ∃ align ∈ b.align?, ∃ k < 5,
      align = 2 ^ k ∧ align ∣ size := by
    decide
  obtain ⟨align, halign, k, -, power, divides⟩ := each b b.mem_all size h
  exact ⟨align, halign, ⟨k, power⟩, divides⟩

namespace Store

variable {s : Store} {t u : Ty} {ts : List Ty} {id : StructId} {x : Struct} {n : Nat}

/-- The type is built up by value, never from itself, of parts whose layouts are under control. -/
inductive Regular (s : Store) : Ty → Prop
  /-- A base type with a size of its own, whatever is nested in it. -/
  | flat {t : Ty} (sized : t.base.size?.isSome) : Regular s t
  | struct {t : Ty} (base : t.base = .struct)
    (plain : ∀ id x, s.liveStruct? t = some id → s.struct? id = some x → x.cppLayout = false)
    (fields : ∀ id x, s.liveStruct? t = some id → s.struct? id = some x →
      ∀ f ∈ x.fields, Regular s f.type) : Regular s t
  | tuple {t : Ty} (base : t.base = .tuple) (args : ∀ u ∈ t.args, Regular s u) : Regular s t
  | variant {t : Ty} (base : t.base = .variant) (args : ∀ u ∈ t.args, Regular s u) : Regular s t
  /-- A handled type, of a native type or of any structure that has a size. -/
  | handle {t : Ty} (base : t.base = .handle)
    (measured : ∀ id, s.boundStruct? t = some id → ¬ Loops s.Measures id)
    (power : (s.alignOf t).isPowerOfTwo) (multiple : s.alignOf t ∣ s.elementExtent t) : Regular s t

def payloadStart (s : Store) (t : Ty) : Nat := roundUp 4 (s.alignOf t)

/-- Things lie as they should, from the start on and one right behind the other, and the size that
they end in is padded. -/
structure Packed (s : Store) (t : Ty) (ms : List Measure) (ps : List Placement) : Prop where
  laidOut : LaidOut ms ps (s.elementExtent t)
  packed : ps = pack 0 ms
  padded : s.elementExtent t = roundUp (stopFrom 0 ps) (s.alignOf t)

/-- The layout of a type is sound. An element is a value, or one of the values of an array if the
type has dimensions. -/
structure SoundLayout (s : Store) (t : Ty) : Prop where
  align : ∃ n, s.typeAlign t = .ok n ∧ n.isPowerOfTwo
  /-- In words the size is there unless it leaves the word, and exact. -/
  size : Halts (s.typeSize t) ∧ ∀ n, s.typeSize t = .ok n → n = s.extent t
  elements : s.extent t = s.elementExtent t * elementCount t.dims
  multiple : s.alignOf t ∣ s.elementExtent t ∧ s.alignOf t ∣ s.extent t
  struct : t.base = .struct → ∀ id x, s.liveStruct? t = some id → s.struct? id = some x →
    s.structAlign id = s.typeAlign t ∧ (∀ n, s.structSize id = .ok n → n = s.elementExtent t) ∧
      s.Packed t (s.fieldMeasures x.fields) (s.structPlaces x)
  tuple : t.base = .tuple → s.Packed t (t.args.map s.measure) (pack 0 (t.args.map s.measure))
  variant : t.base = .variant → ∀ u ∈ t.args, 4 ≤ s.payloadStart t ∧
    s.alignOf u ∣ s.payloadStart t ∧ s.payloadStart t + s.extent u ≤ s.elementExtent t

namespace Regular

/-- What the size of a regular type asks does not come to ask itself. -/
theorem not_loops (h : s.Regular t) : ∀ id ∈ s.valueStructs t, ¬ Loops s.Measures id := by
  induction h with
  | flat sized =>
    rename_i t
    intro id hid
    rw [valueStructs_eq] at hid
    cases base : t.base <;> rw [base] at sized hid <;> first | cases hid | cases sized
  | struct base plain _ ih =>
    intro id hid loops
    rw [valueStructs_of_struct base, Option.mem_toList] at hid
    obtain ⟨b, ⟨x, hx, f, hf, hb⟩ | ⟨x, hx, cpp, -⟩, loops⟩ := loops.step
    · exact ih id x hid hx f hf b hb loops
    · rw [plain id x hid hx] at cpp
      cases cpp
  | tuple base _ ih =>
    rw [valueStructs_eq, base]
    exact forall_mem_valueStructsList.2 ih
  | variant base _ ih =>
    rw [valueStructs_eq, base]
    exact forall_mem_valueStructsList.2 ih
  | handle base measured =>
    intro id hid
    rw [valueStructs_eq, base, Option.mem_toList] at hid
    exact measured id hid

theorem answers (h : s.Regular t) : Answers (s.typeAlign t) :=
  answers_alignWith t |>.2 fun id hid =>
    answers_structAlign_of_measures (walksEnd_measures (h.not_loops id hid))

end Regular

theorem alignsWith_of_answers (h : ∀ t ∈ ts, Answers (s.typeAlign t)) :
    s.alignsWith s.structAlign ts = .ok (ts.map s.alignOf) := by
  obtain ⟨aligns, haligns⟩ := answers_alignsWith.2 h
  rw [haligns, eq_of_alignsWith haligns]

theorem alignOf_flat {align : Nat} (h : t.base.align? = some align) : s.alignOf t = align := by
  apply alignOf_of_ok
  rw [typeAlign, alignWith_eq, h]

theorem typeAlign_struct (base : t.base = .struct) (live : s.liveStruct? t = some id) :
    s.typeAlign t = s.structAlign id := by
  rw [typeAlign, alignWith_eq, base, live]
  rfl

theorem alignOf_struct (base : t.base = .struct) (live : s.liveStruct? t = some id) :
    s.alignOf t = s.structAlignOf id := by
  rw [alignOf, typeAlign_struct base live, structAlignOf]

theorem elementExtent_struct (base : t.base = .struct) (live : s.liveStruct? t = some id) :
    s.elementExtent t = s.structExtent id := by
  rw [elementExtent, elementExtentWith_eq, base, live]
  rfl

theorem alignOf_tuple (base : t.base = .tuple) (h : ∀ u ∈ t.args, Answers (s.typeAlign u)) :
    s.alignOf t = maxAlign (t.args.map s.alignOf) := by
  apply alignOf_of_ok
  rw [typeAlign, alignWith_eq, base]
  dsimp only [BaseType.align?]
  rw [alignsWith_of_answers h]
  rfl

theorem alignOf_variant (base : t.base = .variant) (h : ∀ u ∈ t.args, Answers (s.typeAlign u)) :
    s.alignOf t = max (maxAlign (t.args.map s.alignOf)) 4 := by
  apply alignOf_of_ok
  rw [typeAlign, alignWith_eq, base]
  dsimp only [BaseType.align?]
  rw [alignsWith_of_answers h]
  rfl

theorem liveStruct?_eq_some (live : s.liveStruct? t = some id) : ∃ x, s.struct? id = some x :=
  Option.isSome_iff_exists.1 (Option.filter_eq_some_iff.1 live).2

theorem alignOf_le_of_mem (base : t.base = .variant) (h : ∀ u ∈ t.args, Answers (s.typeAlign u))
    (hu : u ∈ t.args) : s.alignOf u ≤ s.alignOf t := by
  rw [alignOf_variant base h]
  exact Nat.le_trans (le_maxAlign (List.mem_map_of_mem hu)) (Nat.le_max_left _ _)

namespace Regular

/-- The alignment of a regular type is a power of two. -/
theorem isPowerOfTwo (h : s.Regular t) : (s.alignOf t).isPowerOfTwo := by
  induction h with
  | flat sized =>
    obtain ⟨size, hsize⟩ := Option.isSome_iff_exists.1 sized
    obtain ⟨align, halign, power, -⟩ := BaseType.exists_align? hsize
    rwa [alignOf_flat halign]
  | @struct t base plain fields ih =>
    have known := (Regular.struct base plain fields).answers
    cases live : s.liveStruct? t with
    | none =>
      rw [alignOf, typeAlign, alignWith_eq, base, live]
      exact Nat.isPowerOfTwo_one
    | some id =>
      obtain ⟨x, hx⟩ := liveStruct?_eq_some live
      rw [typeAlign_struct base live] at known
      obtain ⟨n, hn⟩ := known
      rw [alignOf_struct base live, structAlignOf_of_ok hn]
      exact isPowerOfTwo_structAlign hx hn (ih id x live hx)
  | tuple base args ih =>
    rw [alignOf_tuple base fun u hu => (args u hu).answers]
    exact isPowerOfTwo_maxAlign (List.forall_mem_map.2 ih)
  | variant base args ih =>
    rw [alignOf_variant base fun u hu => (args u hu).answers]
    exact isPowerOfTwo_max (isPowerOfTwo_maxAlign (List.forall_mem_map.2 ih)) ⟨2, rfl⟩
  | handle base measured power multiple => exact power

theorem positive (h : s.Regular t) : 0 < s.alignOf t := Nat.pos_of_isPowerOfTwo h.isPowerOfTwo

/-- A regular structure is as large as its fields ask for. -/
theorem elementExtent_eq (h : s.Regular t) (base : t.base = .struct)
    (live : s.liveStruct? t = some id) (hx : s.struct? id = some x) :
    s.elementExtent t = roundUp (stopFrom 0 (s.structPlaces x)) (s.alignOf t) := by
  have held : id ∈ s.valueStructs t := by
    rw [valueStructs_of_struct base, live]
    exact List.mem_singleton_self id
  rw [elementExtent_struct base live, alignOf_struct base live]
  exact Store.structExtent_eq hx (h.not_loops id held)

end Regular

theorem elementExtent_tuple (base : t.base = .tuple) : s.elementExtent t =
    roundUp (stopFrom 0 (pack 0 (t.args.map s.measure))) (s.alignOf t) := by
  rw [elementExtent, elementExtentWith_eq, base]
  dsimp only [BaseType.size?]
  rw [measuresWith_eq]
  rfl

theorem elementExtent_variant (base : t.base = .variant) : s.elementExtent t =
    roundUp (s.payloadStart t + (t.args.map s.extent).max?.getD 0) (s.alignOf t) := by
  rw [elementExtent, elementExtentWith_eq, base]
  dsimp only [BaseType.size?]
  rw [measuresWith_eq, List.map_map]
  rfl

theorem Regular.multiple (h : s.Regular t) : s.alignOf t ∣ s.elementExtent t := by
  have positive := h.positive
  cases h with
  | flat sized =>
    obtain ⟨size, hsize⟩ := Option.isSome_iff_exists.1 sized
    obtain ⟨align, halign, -, divides⟩ := BaseType.exists_align? hsize
    rw [alignOf_flat halign, elementExtent, elementExtentWith_eq, hsize]
    exact divides
  | struct base plain fields =>
    cases live : s.liveStruct? t with
    | none =>
      rw [elementExtent, elementExtentWith_eq, base, live]
      exact Nat.dvd_zero _
    | some id =>
      obtain ⟨x, hx⟩ := liveStruct?_eq_some live
      rw [Regular.elementExtent_eq (.struct base plain fields) base live hx]
      exact dvd_roundUp positive _
  | tuple base args =>
    rw [elementExtent_tuple base]
    exact dvd_roundUp positive _
  | variant base args =>
    rw [elementExtent_variant base]
    exact dvd_roundUp positive _
  | handle base measured power multiple => exact multiple

theorem alignOf_of_bound (base : t.base = .handle) (bound : s.boundStruct? t = some id) :
    s.alignOf t = s.structAlignOf id := by
  rw [alignOf, typeAlign, alignWith_eq, base]
  dsimp only [BaseType.align?]
  rw [annotMeasure_eq, bound]
  rfl

theorem elementExtent_of_bound (base : t.base = .handle) (bound : s.boundStruct? t = some id) :
    s.elementExtent t = s.structExtent id := by
  rw [elementExtent, elementExtentWith_eq, base]
  dsimp only [BaseType.size?]
  rw [annotExtent, bound]

/-- The handled type of a regular structure is regular. -/
theorem Regular.of_bound (base : t.base = .handle) (bound : s.boundStruct? t = some id)
    (hx : s.struct? id = some x) (h : s.Regular (.struct id)) : s.Regular t := by
  have live : s.liveStruct? (.struct id) = some id :=
    Option.filter_eq_some_iff.2 ⟨rfl, Option.isSome_iff_exists.2 ⟨x, hx⟩⟩
  have align : s.alignOf t = s.alignOf (.struct id) :=
    (alignOf_of_bound base bound).trans (alignOf_struct rfl live).symm
  have element : s.elementExtent t = s.elementExtent (.struct id) :=
    (elementExtent_of_bound base bound).trans (elementExtent_struct rfl live).symm
  refine .handle base (fun other bound' => ?_) (align ▸ h.isPowerOfTwo) ?_
  · rw [bound] at bound'
    cases bound'
    exact h.not_loops id (by rw [valueStructs_struct hx]; exact List.mem_singleton_self id)
  · rw [align, element]
    exact h.multiple

theorem packed_of_padded {ms : List Measure} {ps : List Placement} (h : ∀ m ∈ ms, 0 < m.align)
    (packed : ps = pack 0 ms)
    (padded : s.elementExtent t = roundUp (stopFrom 0 ps) (s.alignOf t)) : s.Packed t ms ps where
  laidOut := by
    subst packed
    exact laidOut_pack h (padded ▸ le_roundUp _ _)
  packed := packed
  padded := padded

namespace Regular

theorem packed_struct (h : s.Regular t) (base : t.base = .struct)
    (live : s.liveStruct? t = some id) (hx : s.struct? id = some x) :
    s.Packed t (s.fieldMeasures x.fields) (s.structPlaces x) := by
  have padded := h.elementExtent_eq base live hx
  cases h with
  | struct _ plain fields =>
    have plain : x.isNative = false := Struct.isNative_eq_false (plain id x live hx)
    refine packed_of_padded ?_ (structPlaces_plain plain) padded
    exact List.forall_mem_map.2 fun f hf => (fields id x live hx f hf).positive
  | flat sized | tuple other | variant other | handle other =>
    simp [base, BaseType.size?] at *

theorem packed_tuple (h : s.Regular t) (base : t.base = .tuple) :
    s.Packed t (t.args.map s.measure) (pack 0 (t.args.map s.measure)) := by
  refine packed_of_padded ?_ rfl (elementExtent_tuple base)
  cases h with
  | tuple _ args => exact List.forall_mem_map.2 fun u hu => (args u hu).positive
  | flat sized | struct other | variant other | handle other =>
    simp [base, BaseType.size?] at *

/-- An alternative starts behind the index, aligned, and ends within the size. -/
theorem alternative_fits (h : s.Regular t) (base : t.base = .variant) (hu : u ∈ t.args) :
    4 ≤ s.payloadStart t ∧ s.alignOf u ∣ s.payloadStart t ∧
      s.payloadStart t + s.extent u ≤ s.elementExtent t := by
  have power := h.isPowerOfTwo
  have positive := h.positive
  cases h with
  | variant _ args =>
    have smaller := alignOf_le_of_mem base (fun u hu => (args u hu).answers) hu
    have divides := dvd_of_isPowerOfTwo (args u hu).isPowerOfTwo power smaller
    refine ⟨le_roundUp 4 _, Nat.dvd_trans divides (dvd_roundUp positive 4), ?_⟩
    have payload : s.extent u ≤ (t.args.map s.extent).max?.getD 0 :=
      List.le_max?_getD_of_mem (List.mem_map_of_mem hu)
    have := le_roundUp (s.payloadStart t + (t.args.map s.extent).max?.getD 0) (s.alignOf t)
    rw [elementExtent_variant base]
    omega
  | flat sized | struct other | tuple other | handle other =>
    simp [base, BaseType.size?] at *

end Regular

/-- The layout of every regular type is sound. -/
theorem layout_sound (h : s.Regular t) : s.SoundLayout t where
  align := by
    obtain ⟨n, hn⟩ := h.answers
    exact ⟨n, hn, alignOf_of_ok hn ▸ h.isPowerOfTwo⟩
  size := ⟨halts_typeSize h.not_loops, fun _ => eq_of_typeSize⟩
  elements := rfl
  multiple := ⟨h.multiple, Nat.dvd_mul_right_of_dvd h.multiple _⟩
  struct base id x live hx := by
    refine ⟨(typeAlign_struct base live).symm, fun n hn => ?_, h.packed_struct base live hx⟩
    rw [(eq_of_structSize hx hn).2, elementExtent_struct base live]
  tuple := h.packed_tuple
  variant base _ := h.alternative_fits base

/-- A structure with a native value of 12 bytes, and a handled type that is bound to it. -/
def blobs : Store where
  structs := ⟨#[some { name := "Blob", fields := [
    { name := "tag", type := .ofBase .int8 },
    { name := "weights", type := { base := .double, dims := [3] } },
    { name := "color", type := .handle ⟨0⟩ }] }]⟩
  annots := ⟨#[some { name := "Color", kind := .handled 12 4 true false },
    some { name := "Blob", kind := .structType false (some ⟨0⟩) }]⟩

def blobChoice : Ty :=
  { Ty.variant [.tuple [.ofBase .bool, .struct ⟨0⟩] [], .handle ⟨1⟩] [] with dims := [2] }

theorem layout_sound_blobs : blobs.SoundLayout blobChoice ∧
    blobs.typeSize blobChoice = .ok 128 ∧ blobs.typeAlign blobChoice = .ok 8 := by
  have color : blobs.Regular (.handle ⟨0⟩) :=
    .handle rfl nofun (by decide +kernel) (by decide +kernel)
  have blob : blobs.Regular (.struct ⟨0⟩) := by
    refine .struct rfl (fun id x live hx => ?_) fun id x live hx => ?_
    all_goals
      cases live
      cases hx
    · rfl
    · exact List.forall_mem_cons.2 ⟨.flat rfl, List.forall_mem_cons.2 ⟨.flat rfl,
        List.forall_mem_singleton.2 color⟩⟩
  have choice : blobs.Regular blobChoice := by
    refine .variant rfl (List.forall_mem_cons.2 ⟨.tuple rfl ?_, List.forall_mem_singleton.2 ?_⟩)
    · exact List.forall_mem_cons.2 ⟨.flat rfl, List.forall_mem_singleton.2 blob⟩
    · exact .of_bound rfl rfl rfl blob
  exact ⟨layout_sound choice, by decide +kernel, by decide +kernel⟩

end Store

end Frontend
