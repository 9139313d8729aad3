import Frontend.Proofs.Layout.Fitting

/-!
# Room for sizes

Where no layout is native and all elements are there, the end of the parts of a type with one
alignment more is the greatest of the numbers that come up in its size, but for the size itself. So
these two decide whether the size of such a type has a result.
-/

namespace Frontend

namespace Store

open Relation

variable {s : Store} {t u : Ty} {id : StructId} {x : Struct} {n size start : Nat}
  {dims : List Int32} {previous : Option FieldOwner} {fields : List Field}

section Ordinary

/-- Only elements that are there, and no native layout of a structure. -/
structure Ordinary (s : Store) (t : Ty) : Prop where
  counted : ∀ d ∈ t.dims, 0 < d.toInt
  plain : ∀ id x, s.sizedStruct? t = some id → s.struct? id = some x → x.isNative = false

theorem size_le_stopFrom_pack {ms : List Measure} {m : Measure} (h : m ∈ ms) :
    m.size ≤ stopFrom start (pack start ms) := by
  induction ms generalizing start with
  | nil => cases h
  | cons first ms ih =>
    rcases List.mem_cons.1 h with rfl | h
    · have := le_stopFrom_pack (roundUp start m.align + m.size) ms
      simp only [pack, stopFrom, Placement.stop]
      omega
    · exact ih h

/-- The sums that give things their places are no greater than the end of them all and one
alignment more. -/
theorem le_of_mem_packSums {ms : List Measure} {greatest : Nat}
    (aligns : ∀ m ∈ ms, m.align ≤ greatest) (h : n ∈ packSums start ms) :
    n ≤ stopFrom start (pack start ms) + max greatest 1 := by
  induction ms generalizing start with
  | nil => cases h
  | cons m ms ih =>
    obtain ⟨hm, hms⟩ := List.forall_mem_cons.1 aligns
    have := le_stopFrom_pack (roundUp start m.align + m.size) ms
    have := le_roundUp start m.align
    rcases List.mem_cons.1 h with rfl | h
    · simp only [pack, stopFrom, Placement.stop]
      omega
    rcases List.mem_cons.1 h with rfl | h
    · simp only [pack, stopFrom, Placement.stop]
      omega
    · exact ih hms h

theorem fieldSums_plain (plain : x.isNative = false) : s.fieldSums x size previous fields =
    packSums size (s.fieldMeasures fields) := by
  induction fields generalizing size previous with
  | nil => rfl
  | cons first rest ih =>
    have start (owner : Option FieldOwner) :
        fieldStart x s.structExtent size previous owner = size :=
      if_neg (not_behind_parent plain)
    simp only [fieldSums, fieldMeasures, List.map_cons, packSums, start, ih]
    rfl

theorem elementCount_append (ds es : List Int32) :
    elementCount (ds ++ es) = elementCount ds * elementCount es := by
  induction ds with
  | nil => exact (Nat.one_mul _).symm
  | cons d ds ih => rw [List.cons_append, elementCount_cons, elementCount_cons, ih, Nat.mul_assoc]

theorem elementCount_pos (h : ∀ d ∈ dims, 0 < d.toInt) : 0 < elementCount dims := by
  induction dims with
  | nil => exact Nat.one_pos
  | cons d dims ih =>
    obtain ⟨hd, hdims⟩ := List.forall_mem_cons.1 h
    exact Nat.mul_pos (by omega) (ih hdims)

/-- With elements that are there, the last of the products is the greatest. -/
theorem productsFit_iff (element : Nat) (h : ∀ d ∈ dims, 0 < d.toInt) : ProductsFit element dims ↔
    (dims ≠ [] → element * elementCount dims < sizeLimit) := by
  constructor
  · exact fun fits => fits dims List.prefix_rfl
  · rintro fits ds ⟨rest, rfl⟩ apart
    have last := fits (by simp [apart])
    have positive : 0 < elementCount rest :=
      elementCount_pos fun d hd => h d (List.mem_append_right _ hd)
    rw [elementCount_append, ← Nat.mul_assoc] at last
    exact Nat.lt_of_le_of_lt (Nat.le_mul_of_pos_right _ positive) last

/-- What is padded to the size of an element has room for all that comes up on the way. -/
structure HasRoom (s : Store) (t : Ty) : Prop where
  places : ∀ n ∈ s.placeSums t, n ≤ s.reserve t
  parts : ∀ u, s.AsksSize t u → s.extent u + max (s.alignOf u) 1 ≤ s.reserve t
  padded : s.reserve t ≤ s.elementExtent t + max (s.alignOf t) 1

theorem hasRoom_packed (ms : List Measure) (sums : s.placeSums t = packSums 0 ms)
    (room : s.reserve t = stopFrom 0 (pack 0 ms) + max (s.alignOf t) 1)
    (padded : s.elementExtent t = roundUp (stopFrom 0 (pack 0 ms)) (s.alignOf t))
    (asked : ∀ u, s.AsksSize t u → s.measure u ∈ ms)
    (aligns : ∀ m ∈ ms, m.align ≤ s.alignOf t) : s.HasRoom t where
  places n hn := by
    rw [sums] at hn
    rw [room]
    exact le_of_mem_packSums aligns hn
  parts u asks := by
    have hu := asked u asks
    have size : s.extent u ≤ stopFrom 0 (pack 0 ms) := size_le_stopFrom_pack hu
    have align : s.alignOf u ≤ s.alignOf t := aligns _ hu
    omega
  padded := by
    have := le_roundUp (stopFrom 0 (pack 0 ms)) (s.alignOf t)
    omega

theorem hasRoom_tuple (grounded : s.Grounded t) (base : t.base = .tuple) : s.HasRoom t := by
  refine hasRoom_packed _ (by rw [placeSums, base]) (by rw [reserve, base])
    (elementExtent_tuple base)
    (fun u asks => List.mem_map_of_mem (asks.of_args (.inl base))) ?_
  have answers : ∀ u ∈ t.args, Answers (s.typeAlign u) := fun u hu =>
    (grounded.of_asks (.arg (.inl base) hu)).answers
  rw [alignOf_tuple base answers]
  exact List.forall_mem_map.2 fun u hu => le_maxAlign (List.mem_map_of_mem hu)

theorem hasRoom_variant (grounded : s.Grounded t) (base : t.base = .variant) : s.HasRoom t where
  places n hn := by
    have := le_roundUp 4 (s.alignOf t)
    rw [placeSums, base] at hn
    rw [reserve, base]
    simp only [List.mem_cons, List.not_mem_nil, or_false] at hn
    dsimp only [payloadStart] at hn ⊢
    omega
  parts u asks := by
    have hu := asks.of_args (.inr base)
    have align := alignOf_le_of_mem base
      (fun v hv => (grounded.of_asks (.arg (.inr base) hv)).answers) hu
    have size : s.extent u ≤ s.payload t := List.le_max?_getD_of_mem (List.mem_map_of_mem hu)
    rw [reserve, base]
    dsimp only
    omega
  padded := by
    have := le_roundUp (s.payloadStart t + s.payload t) (s.alignOf t)
    rw [elementExtent_variant base, reserve, base]
    exact Nat.add_le_add_right this _

theorem alignOf_sized (sized : s.sizedStruct? t = some id) : s.alignOf t = s.structAlignOf id := by
  obtain ⟨base | base, -⟩ := sizedStruct?_eq_some sized <;>
    rw [sizedStruct?, base] at sized <;> dsimp only at sized
  · exact alignOf_struct base sized
  · exact alignOf_of_bound base sized

theorem hasRoom_struct (grounded : s.Grounded t) (sized : s.sizedStruct? t = some id)
    (hx : s.struct? id = some x) (plain : x.isNative = false) : s.HasRoom t := by
  have loops := grounded id (sizedStruct?_eq_some sized).2
  refine hasRoom_packed (s.fieldMeasures x.fields) ?_ ?_ ?_ (fun u asks => ?_) ?_
  · rw [placeSums_sized sized, structSums, hx]
    exact fieldSums_plain plain
  · rw [reserve_sized sized, structReserve, hx, alignOf_sized sized, ← structPlaces_plain plain]
  · rw [elementExtent_sized sized, structExtent_eq hx loops, structPlaces_plain plain,
      alignOf_sized sized]
  · obtain ⟨y, hy, f, hf, rfl⟩ | ⟨parent, ⟨y, hy, cpp, pod, -⟩, -⟩ := asks.of_sized sized
    · cases hx.symm.trans hy
      exact List.mem_map_of_mem hf
    · cases hx.symm.trans hy
      rw [Struct.isNative, cpp, pod] at plain
      cases plain
  · obtain ⟨align, halign⟩ := answers_structAlign_of_measures (walksEnd_measures loops)
    refine List.forall_mem_map.2 fun f hf => ?_
    have : s.alignOf f.type ≤ maxAlign (x.fields.map fun f => s.alignOf f.type) :=
      le_maxAlign (List.mem_map_of_mem hf)
    rw [alignOf_sized sized, structAlignOf_of_ok halign, eq_of_structAlign hx halign]
    exact Nat.le_trans this (Nat.le_max_left _ 1)

/-- Where nothing is placed there is room. -/
theorem hasRoom_empty (sums : s.placeSums t = []) (room : s.reserve t = 0)
    (asked : ∀ u, ¬ s.AsksSize t u) : s.HasRoom t where
  places n hn := by
    rw [sums] at hn
    cases hn
  parts u asks := absurd asks (asked u)
  padded := by
    rw [room]
    exact Nat.zero_le _

theorem Ordinary.hasRoom (ordinary : s.Ordinary t) (grounded : s.Grounded t) : s.HasRoom t := by
  by_cases tuple : t.base = .tuple
  · exact hasRoom_tuple grounded tuple
  by_cases variant : t.base = .variant
  · exact hasRoom_variant grounded variant
  cases sized : s.sizedStruct? t with
  | none =>
    refine hasRoom_empty ?_ ?_ fun u => not_asksSize tuple variant sized
    · rw [placeSums_other tuple variant, sized]
      rfl
    · rw [reserve_other tuple variant, sized]
      rfl
  | some id =>
    cases hx : s.struct? id with
    | none =>
      refine hasRoom_empty ?_ ?_ fun u asks => ?_
      · rw [placeSums_sized sized, structSums, hx]
      · rw [reserve_sized sized, structReserve, hx]
      · obtain ⟨x, hx', -⟩ | ⟨parent, ⟨x, hx', -⟩, -⟩ := asks.of_sized sized <;>
          cases hx.symm.trans hx'
    | some x => exact hasRoom_struct grounded sized hx (ordinary.plain id x sized hx)

theorem Ordinary.elementExtent_le (ordinary : s.Ordinary t) : s.elementExtent t ≤ s.extent t :=
  Nat.le_mul_of_pos_right _ (elementCount_pos ordinary.counted)

theorem Ordinary.numbersFit_iff (ordinary : s.Ordinary t) (grounded : s.Grounded t) :
    s.NumbersFit t ↔ s.reserve t < sizeLimit ∧ (t.dims ≠ [] → s.extent t < sizeLimit) := by
  have products := productsFit_iff (s.elementExtent t) ordinary.counted
  constructor
  · exact fun fits => ⟨fits.padding, products.1 fits.products⟩
  · rintro ⟨padding, total⟩
    exact ⟨fun n hn => Nat.lt_of_le_of_lt ((ordinary.hasRoom grounded).places n hn) padding,
      padding, products.2 total⟩

/-- Without native layouts, and with elements that are there, a size has a result exactly if what
is padded to it and the size itself fit words. -/
theorem fits_iff_of_ordinary (grounded : s.Grounded t)
    (ordinary : ∀ u, ReflTransGen s.AsksSize t u → s.Ordinary u) :
    s.Fits t ↔ s.reserve t < sizeLimit ∧ (t.dims ≠ [] → s.extent t < sizeLimit) := by
  constructor
  · exact fun fits => ((ordinary t .refl).numbersFit_iff grounded).1 (fits t .refl)
  · intro own u reached
    -- the room of a type is enough for its parts, so what is reached from it has room in words too
    have room : s.Grounded u ∧ s.reserve u < sizeLimit ∧
        (u.dims ≠ [] → s.extent u < sizeLimit) := by
      induction reached with
      | refl => exact ⟨grounded, own⟩
      | @tail v w reached asks ih =>
        obtain ⟨grounded, padding, -⟩ := ih
        have below := grounded.of_asks asks
        have part := ((ordinary v reached).hasRoom grounded).parts w asks
        have tame := ordinary w (reached.tail asks)
        have padded := (tame.hasRoom below).padded
        have element := tame.elementExtent_le
        exact ⟨below, by omega, fun _ => by omega⟩
    exact ((ordinary u reached).numbersFit_iff room.1).2 room.2

end Ordinary

/-- A size that does not come to ask itself has a result exactly if the numbers on the way to it fit
words, and then the result is the exact product of the size of an element with the dimensions. If it
has none it overflows. For ordinary types it has one as long as there is room in words for what is
padded to it, and for the size itself. -/
theorem typeSize_ok_iff (h : ∀ id ∈ s.valueStructs t, ¬ Loops s.Measures id) :
    (∀ n, s.typeSize t = .ok n ↔
      s.Fits t ∧ n = s.elementExtent t * elementCount t.dims) ∧
    (¬ s.Fits t → Overflows (s.typeSize t)) ∧
    ((∀ u, ReflTransGen s.AsksSize t u → s.Ordinary u) →
      (s.Fits t ↔ s.reserve t < sizeLimit ∧
        (t.dims ≠ [] → s.elementExtent t * elementCount t.dims < sizeLimit))) :=
  ⟨fun _ => (checked_typeSize h).ok_iff, (checked_typeSize h).overflows, fits_iff_of_ordinary h⟩

def cells : Store where
  structs := ⟨#[some { name := "Cell", fields := [{ name := "tag", type := .ofBase .int8 },
    { name := "value", type := .ofBase .double }] }]⟩

def grid : Ty :=
  { Ty.tuple [{ Ty.struct ⟨0⟩ with dims := [3, 4] }, .ofBase .int8] [] with dims := [2] }

def vast : Ty := { base := .int, dims := [2147483647, 2147483647, 2] }

theorem typeSize_ok_iff_grid : (cells.typeSize grid = .ok 400 ∧ cells.Fits grid ∧
    400 = cells.elementExtent grid * elementCount grid.dims) ∧
    cells.elementExtent vast * elementCount vast.dims = 36893488113059364872 ∧
      Overflows (cells.typeSize vast) := by
  have grounded : ∀ id ∈ cells.valueStructs grid, ¬ Loops cells.Measures id := by
    rintro id hid loops
    have held : id ∈ [(⟨0⟩ : StructId)] := hid
    obtain rfl := List.mem_singleton.1 held
    obtain ⟨b, ⟨x, hx, f, hf, hb⟩ | ⟨x, hx, cpp, -⟩, -⟩ := loops.step
    · cases hx
      rcases List.mem_cons.1 hf with rfl | hf
      · cases hb
      · cases List.mem_singleton.1 hf
        cases hb
    · cases hx
      cases cpp
  have size : cells.typeSize grid = .ok 400 := by rfl
  have exact : cells.elementExtent vast * elementCount vast.dims = 36893488113059364872 := by rfl
  refine ⟨⟨size, ((typeSize_ok_iff grounded).1 400).1 size⟩, exact, ?_⟩
  obtain ⟨-, overflows, ordinary⟩ := typeSize_ok_iff (s := cells) (t := vast) nofun
  refine overflows fun fits => ?_
  have flat : ∀ u, ReflTransGen cells.AsksSize vast u → cells.Ordinary u := by
    intro u reached
    obtain rfl | ⟨v, asks, -⟩ := reached.cases_head
    · refine ⟨fun d hd => ?_, nofun⟩
      have dims : d = 2147483647 ∨ d = 2147483647 ∨ d = 2 := by simpa [vast] using hd
      rcases dims with rfl | rfl | rfl <;> decide
    · exact absurd asks (not_asksSize nofun nofun rfl)
  have total := ((ordinary flat).1 fits).2 nofun
  exact absurd total (by rw [exact]; decide)

/-- An array of no elements, as its last dimension is still to be inferred. -/
def hollow : Ty := { base := .int, dims := [2147483647, 2147483647, 2147483647, -1] }

/-- The exact size is zero, but the product with the first three dimensions overflows before the
last one is taken. -/
theorem typeSize_overflows_hollow : (∀ id ∈ cells.valueStructs hollow, ¬ Loops cells.Measures id) ∧
    cells.elementExtent hollow * elementCount hollow.dims = 0 ∧
    cells.typeSize hollow = .error .sizeProductOverflow :=
  ⟨nofun, by rfl, by rfl⟩

end Store

end Frontend
