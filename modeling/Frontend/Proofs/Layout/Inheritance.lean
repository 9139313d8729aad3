import Frontend.Proofs.Declaring.Deriving
import Frontend.Proofs.Layout.Exact

/-!
# Places of inherited fields

With a native layout the own fields of a structure start behind its whole parent. Whose field one is
gets looked up by name in the structure and its parent, so the fields of a parent count as one
group, also those that the parent inherits: they are packed, even where the parent has a gap between
what it inherits and what it adds.
-/

namespace Frontend

theorem roundUp_zero (align : Nat) : roundUp 0 align = 0 := by
  unfold roundUp
  rw [Nat.div_eq_of_lt (by omega), Nat.zero_mul]

theorem pack_cons_eq_iff {start other : Nat} {m : Measure} {ms : List Measure} :
    pack start (m :: ms) = pack other (m :: ms) ↔
      roundUp start m.align = roundUp other m.align := by
  constructor
  · intro h
    exact congrArg Placement.offset (List.cons.inj h).1
  · intro h
    rw [pack, pack, h]

namespace Store

/-- A structure is derived from another one: it extends that and has the same kind of layout. -/
structure Derives (s : Store) (id up : StructId) (x p : Struct) (inherited own : List Field) : Prop
    extends x.Extends p inherited own where
  here : s.struct? id = some x
  above : s.struct? up = some p
  parent : x.parent? = some up
  cpp : x.cppLayout = p.cppLayout
  pod : x.cppLayoutPod = p.cppLayoutPod

inductive Lineage (s : Store) : StructId → Struct → Prop
  | root {id : StructId} {x : Struct} (here : s.struct? id = some x)
    (orphan : x.parent?.bind s.struct? = none) : Lineage s id x
  | derived {id up : StructId} {x p : Struct} {inherited own : List Field}
    (h : s.Derives id up x p inherited own) (above : Lineage s up p) : Lineage s id x

/-- Where fields end if there is nothing between them but padding. -/
def packedEnd (s : Store) (fields : List Field) : Nat :=
  stopFrom 0 (pack 0 (s.fieldMeasures fields))

/-- The first field that the structure adds is not where it would be right behind those that it
inherits. -/
def Gap (s : Store) (id : StructId) (x : Struct) : Prop :=
  x.isNative = true ∧ ∃ up p inherited first rest, s.Derives id up x p inherited (first :: rest) ∧
    roundUp (s.structExtent up) (s.alignOf first.type) ≠
      roundUp (s.packedEnd p.fields) (s.alignOf first.type)

variable {s : Store} {id up : StructId} {x p : Struct} {inherited own fields fs gs : List Field}
  {f : Field} {n m size : Nat} {g : StructId → Nat} {owner previous : Option FieldOwner}

/-- A structure that is derived, gets fields of new names, and the layout of its parent. -/
theorem derives_addStruct {t : Store} {name : String} {span : Span} (hp : s.struct? up = some p)
    (h : s.deriveStruct name up span = .ok (x, t)) (fresh : ∀ f ∈ own, p.field? f.name = none) :
    let y : Struct := { x with
      fields := x.fields ++ own, cppLayout := p.cppLayout, cppLayoutPod := p.cppLayoutPod }
    (t.addStruct y).2.Derives (t.addStruct y).1 up y p x.fields own := by
  have kept := (KeptIn.of_addsVars (addsVars_deriveStruct h)).structs up p hp
  obtain ⟨hparent, copies⟩ := deriveStruct_ok hp h
  exact { fields := rfl, copies, fresh, parent := hparent, cpp := rfl, pod := rfl
          here := Table.get?_push_nextId _ _
          above := (KeptIn.addStruct t _).structs up p kept }

theorem fieldMeasures_append (fs gs : List Field) :
    s.fieldMeasures (fs ++ gs) = s.fieldMeasures fs ++ s.fieldMeasures gs := List.map_append

theorem fieldMeasures_of_outline (h : fs.map Field.outline = gs.map Field.outline) :
    s.fieldMeasures fs = s.fieldMeasures gs := by
  have outlined (hs : List Field) :
      s.fieldMeasures hs = (hs.map Field.outline).map fun o => s.measure o.2 := by
    rw [List.map_map]
    rfl
  rw [outlined, outlined, h]

section Owners

theorem Derives.owner_inherited (h : s.Derives id up x p inherited own) (hf : f ∈ inherited) :
    s.fieldOwner? x f.name = some (.parent up) := by
  have found : (p.field? f.name).isSome := by
    have same := isSome_find?_of_outline f.name h.copies
    rw [Struct.field?, ← same, List.find?_isSome]
    exact ⟨f, hf, beq_self_eq_true _⟩
  obtain ⟨e, he⟩ := Option.isSome_iff_exists.1 found
  rw [fieldOwner?, h.parent, Option.bind_some, h.above, Option.bind_some, he]

theorem fieldOwner?_of_mem (hf : f ∈ x.fields)
    (absent : (x.parent?.bind s.struct?).bind (·.field? f.name) = none) :
    s.fieldOwner? x f.name = some .this := by
  have found : (x.field? f.name).isSome := by
    rw [Struct.field?, List.find?_isSome]
    exact ⟨f, hf, beq_self_eq_true _⟩
  obtain ⟨e, he⟩ := Option.isSome_iff_exists.1 found
  rw [fieldOwner?, absent, he]
  cases x.parent? <;> rfl

theorem Derives.owner_own (h : s.Derives id up x p inherited own) (hf : f ∈ own) :
    s.fieldOwner? x f.name = some .this := by
  have hmem : f ∈ x.fields := by
    rw [h.fields]
    exact List.mem_append_right _ hf
  apply fieldOwner?_of_mem hmem
  rw [h.parent, Option.bind_some, h.above, Option.bind_some]
  exact h.fresh f hf

end Owners

section Runs

theorem fieldStart_self : fieldStart x g size owner owner = size := by simp [fieldStart]

theorem fieldStart_none : fieldStart x g size none owner = size := by
  unfold fieldStart
  split <;> rfl

theorem fieldPlaces_cons (cpp : x.cppLayout = true) (hf : s.fieldOwner? x f.name = owner) :
    s.fieldPlaces x g size previous (f :: fs) =
      let start := roundUp (fieldStart x g size previous owner) (s.alignOf f.type)
      let element := s.extentWith g f.type
      ⟨start, element⟩ :: s.fieldPlaces x g (start + element) owner fs := by
  rw [fieldPlaces, if_pos cpp, hf]
  rfl

/-- Fields of one owner are packed, wherever the first of them may start. -/
theorem fieldPlaces_run (cpp : x.cppLayout = true)
    (owners : ∀ f ∈ fields, s.fieldOwner? x f.name = owner) (hne : fields ≠ []) :
    s.fieldPlaces x s.structExtent size previous fields =
      pack (fieldStart x s.structExtent size previous owner) (s.fieldMeasures fields) := by
  induction fields generalizing size previous with
  | nil => exact absurd rfl hne
  | cons f rest ih =>
    obtain ⟨hf, hrest⟩ := List.forall_mem_cons.1 owners
    rw [fieldPlaces_cons cpp hf]
    by_cases last : rest = []
    · subst last
      rfl
    · dsimp only
      rw [ih hrest last, fieldStart_self]
      rfl

/-- What follows fields of one owner starts at their end and after that owner. -/
theorem fieldPlaces_append (cpp : x.cppLayout = true)
    (owners : ∀ f ∈ fs, s.fieldOwner? x f.name = owner) (hne : fs ≠ []) :
    s.fieldPlaces x g size previous (fs ++ gs) = s.fieldPlaces x g size previous fs ++
      s.fieldPlaces x g (stopFrom size (s.fieldPlaces x g size previous fs)) owner gs := by
  induction fs generalizing size previous with
  | nil => exact absurd rfl hne
  | cons f rest ih =>
    obtain ⟨hf, hrest⟩ := List.forall_mem_cons.1 owners
    rw [List.cons_append, fieldPlaces_cons cpp hf, fieldPlaces_cons cpp hf]
    by_cases last : rest = []
    · subst last
      rfl
    · dsimp only
      rw [ih hrest last]
      rfl

/-- Structures without fields take no room. -/
theorem structExtent_of_nil (hx : s.struct? id = some x) (none : x.fields = []) :
    s.structExtent id = 0 := by
  rw [structExtent, structSteps, structExtentIn, hx]
  dsimp only
  rw [none]
  exact roundUp_zero _

/-- A structure without a parent, or without a native layout, is packed. -/
theorem structPlaces_root (orphan : x.parent?.bind s.struct? = none) :
    s.structPlaces x = pack 0 (s.fieldMeasures x.fields) := by
  by_cases native : x.isNative = true
  · by_cases none : x.fields = []
    · rw [structPlaces, none]
      rfl
    · have cpp : x.cppLayout = true := (Bool.and_eq_true_iff.1 native).1
      have owners (f : Field) (hf : f ∈ x.fields) : s.fieldOwner? x f.name = some .this := by
        apply fieldOwner?_of_mem hf
        rw [orphan, Option.bind_none]
      rw [structPlaces, fieldPlaces_run cpp owners none, fieldStart_none]
  · exact structPlaces_plain (Bool.not_eq_true _ ▸ native)

namespace Derives

variable (h : s.Derives id up x p inherited own)

include h

theorem fieldMeasures_eq :
    s.fieldMeasures x.fields = s.fieldMeasures p.fields ++ s.fieldMeasures own := by
  rw [h.fields, fieldMeasures_append, fieldMeasures_of_outline h.copies]

/-- In a native layout the inherited fields are packed, and the others behind the parent. -/
theorem structPlaces_native (native : x.isNative = true) : s.structPlaces x =
    pack 0 (s.fieldMeasures p.fields) ++ pack (s.structExtent up) (s.fieldMeasures own) := by
  obtain ⟨cpp, pod⟩ := Bool.and_eq_true_iff.1 native
  have packedOwn (size : Nat) (previous : Option FieldOwner)
      (start : own ≠ [] →
        fieldStart x s.structExtent size previous (some .this) = s.structExtent up) :
      s.fieldPlaces x s.structExtent size previous own =
        pack (s.structExtent up) (s.fieldMeasures own) := by
    by_cases none : own = []
    · subst none
      rfl
    · rw [fieldPlaces_run cpp (fun f hf => h.owner_own hf) none, start none]
  rw [structPlaces, h.fields]
  by_cases none : inherited = []
  · have hp : p.fields = [] := by
      have := h.copies
      rw [none] at this
      exact List.map_eq_nil_iff.1 this.symm
    rw [none, hp, List.nil_append, packedOwn]
    · rfl
    · intro _
      rw [fieldStart_none, structExtent_of_nil h.above hp]
  · rw [fieldPlaces_append cpp (fun f hf => h.owner_inherited hf) none, packedOwn,
      fieldPlaces_run cpp (fun f hf => h.owner_inherited hf) none, fieldStart_none,
      fieldMeasures_of_outline h.copies]
    intro _
    simp [fieldStart, cpp, pod]

/-- All inherited fields are packed, whatever the parent does. -/
theorem take_structPlaces : (s.structPlaces x).take p.fields.length =
    pack 0 (s.fieldMeasures p.fields) := by
  have length : (pack 0 (s.fieldMeasures p.fields)).length = p.fields.length := by
    rw [length_pack, fieldMeasures, List.length_map]
  by_cases native : x.isNative = true
  · rw [h.structPlaces_native native]
    exact List.take_left' length
  · rw [structPlaces_plain (Bool.not_eq_true _ ▸ native), h.fieldMeasures_eq, pack_append]
    exact List.take_left' length

end Derives

end Runs

section Gaps

/-- A structure is derived in one way only. -/
theorem Derives.unique {up' : StructId} {p' : Struct} {inherited' own' : List Field}
    (h : s.Derives id up x p inherited own) (h' : s.Derives id up' x p' inherited' own') :
    up = up' ∧ p = p' ∧ own = own' := by
  have hup := h.parent.symm.trans h'.parent
  cases hup
  have hp := h.above.symm.trans h'.above
  cases hp
  have length := congrArg List.length (h.copies.trans h'.copies.symm)
  rw [List.length_map, List.length_map] at length
  exact ⟨rfl, rfl, (List.append_inj (h.fields.symm.trans h'.fields) length).2⟩

theorem gap_iff {first : Field} {rest : List Field} (native : x.isNative = true)
    (h : s.Derives id up x p inherited (first :: rest)) :
    s.Gap id x ↔ roundUp (s.structExtent up) (s.alignOf first.type) ≠
      roundUp (s.packedEnd p.fields) (s.alignOf first.type) := by
  constructor
  · rintro ⟨-, up', p', inherited', first', rest', h', gap⟩
    obtain ⟨rfl, rfl, hown⟩ := h.unique h'
    cases hown
    exact gap
  · exact fun gap => ⟨native, up, p, inherited, first, rest, h, gap⟩

/-- The fields of a structure of a chain are packed exactly if there is no gap. -/
theorem Lineage.packed_iff (lineage : s.Lineage id x) :
    s.structPlaces x = pack 0 (s.fieldMeasures x.fields) ↔ ¬ s.Gap id x := by
  by_cases native : x.isNative = true
  · cases lineage with
    | root here orphan =>
      refine iff_of_true (structPlaces_root orphan) ?_
      rintro ⟨-, up, p, inherited, first, rest, h, -⟩
      rw [h.parent, Option.bind_some, h.above] at orphan
      cases orphan
    | @derived _ up _ p inherited own h above =>
      rw [h.structPlaces_native native, h.fieldMeasures_eq, pack_append, List.append_cancel_left_eq]
      cases own with
      | nil =>
        refine iff_of_true rfl ?_
        rintro ⟨-, up', p', inherited', first, rest, h', -⟩
        cases (h.unique h').2.2
      | cons first rest =>
        rw [gap_iff native h, not_not]
        exact pack_cons_eq_iff
  · have plain : x.isNative = false := Bool.not_eq_true _ ▸ native
    exact iff_of_true (structPlaces_plain plain) fun gap => native gap.1

end Gaps

section Sizes

theorem structAlign_of_structSize (hx : s.struct? id = some x) (hn : s.structSize id = .ok n) :
    s.structAlign id = .ok (s.structAlignOf id) := by
  unfold structSize structSteps structSizeIn at hn
  rw [hx] at hn
  obtain ⟨stop, -, hn⟩ := ok_of_bind hn
  obtain ⟨align, halign, -⟩ := ok_of_bind hn
  rw [halign, structAlignOf_of_ok halign]

theorem structAlignOf_eq (hx : s.struct? id = some x) (hn : s.structSize id = .ok n) :
    s.structAlignOf id = max (maxAlign ((s.fieldMeasures x.fields).map (·.align))) 1 := by
  rw [eq_of_structAlign hx (structAlign_of_structSize hx hn), fieldMeasures, List.map_map]
  rfl

variable (h : s.Derives id up x p inherited own)
  (powers : ∀ f ∈ x.fields, (s.alignOf f.type).isPowerOfTwo)
  (hn : s.structSize id = .ok n) (hm : s.structSize up = .ok m)

include h powers hn hm

/-- The alignment of a derived structure is a multiple of that of the parent. -/
theorem Derives.align_dvd :
    max (s.structAlignOf up) 1 ∣ max (s.structAlignOf id) 1 := by
  have inside : s.fieldMeasures p.fields ⊆ s.fieldMeasures x.fields := by
    rw [h.fieldMeasures_eq]
    exact List.subset_append_left _ _
  have powersAbove : ∀ f ∈ p.fields, (s.alignOf f.type).isPowerOfTwo := by
    have measured : ∀ m ∈ s.fieldMeasures x.fields, m.align.isPowerOfTwo :=
      List.forall_mem_map.2 powers
    exact fun f hf => measured (s.measure f.type) (inside (List.mem_map_of_mem hf))
  have power := isPowerOfTwo_structAlign h.here (structAlign_of_structSize h.here hn) powers
  have power' := isPowerOfTwo_structAlign h.above (structAlign_of_structSize h.above hm) powersAbove
  rw [max_one_of_isPowerOfTwo power, max_one_of_isPowerOfTwo power']
  apply dvd_of_isPowerOfTwo power' power
  rw [structAlignOf_eq h.here hn, structAlignOf_eq h.above hm]
  exact max_maxAlign_mono (List.map_subset _ inside)

/-- A derived structure is smaller than its parent only if it has a native layout, adds no fields,
and the parent is larger than its fields need when they are packed. -/
theorem Derives.size_le_iff : m ≤ n ↔ (x.isNative = true → own = [] →
    m ≤ roundUp (s.packedEnd p.fields) (s.structAlignOf up)) := by
  have divides := h.align_dvd powers hn hm
  obtain ⟨hn', -⟩ := eq_of_structSize h.here hn
  obtain ⟨hm', extent⟩ := eq_of_structSize h.above hm
  by_cases native : x.isNative = true
  · cases own with
    | nil =>
      have same : s.fieldMeasures x.fields = s.fieldMeasures p.fields :=
        h.fieldMeasures_eq.trans (List.append_nil _)
      have places : s.structPlaces x = pack 0 (s.fieldMeasures p.fields) :=
        (h.structPlaces_native native).trans (List.append_nil _)
      have align : s.structAlignOf id = s.structAlignOf up := by
        rw [structAlignOf_eq h.here hn, structAlignOf_eq h.above hm, same]
      rw [hn', places, align, packedEnd]
      exact ⟨fun hle _ _ => hle, fun hle => hle native rfl⟩
    | cons first rest =>
      refine iff_of_true ?_ nofun
      have behind : s.structExtent up ≤ stopFrom 0 (s.structPlaces x) := by
        rw [h.structPlaces_native native, stopFrom_append]
        exact le_stopFrom_pack _ (s.fieldMeasures (first :: rest))
      rw [hn', extent]
      exact Nat.le_trans behind (le_roundUp _ _)
  · refine iff_of_true ?_ fun native' => absurd native' native
    have plain : x.isNative = false := Bool.not_eq_true _ ▸ native
    have plain' : p.isNative = false := by
      rw [Struct.isNative, ← h.cpp, ← h.pod]
      exact plain
    rw [hn', hm', structPlaces_plain plain, structPlaces_plain plain', h.fieldMeasures_eq]
    exact roundUp_le_roundUp (stopFrom_pack_append_le _ _ _) divides

/-- A derived structure has the inherited fields packed. Their places are those that they have in
the parent, and the size is no smaller, unless the parent has a gap. -/
theorem inherited_places_iff (lineage : s.Lineage up p) :
    (s.structPlaces x).take p.fields.length = pack 0 (s.fieldMeasures p.fields) ∧
    ((s.structPlaces x).take p.fields.length = s.structPlaces p ↔ ¬ s.Gap up p) ∧
    (m ≤ n ↔ (x.isNative = true → own = [] →
      m ≤ roundUp (s.packedEnd p.fields) (s.structAlignOf up))) ∧
    (¬ s.Gap up p → m ≤ n) ∧
    n = roundUp (stopFrom 0 (s.structPlaces x)) (s.structAlignOf id) ∧
    m = roundUp (stopFrom 0 (s.structPlaces p)) (s.structAlignOf up) := by
  have size := h.size_le_iff powers hn hm
  obtain ⟨hm', -⟩ := eq_of_structSize h.above hm
  refine ⟨h.take_structPlaces, ?_, size, ?_, (eq_of_structSize h.here hn).1, hm'⟩
  · rw [h.take_structPlaces, ← lineage.packed_iff]
    exact eq_comm
  · intro closed
    refine size.2 fun _ _ => ?_
    rw [hm', lineage.packed_iff.2 closed, packedEnd]

end Sizes

def chainLink (name : String) (bytes : List String) (parent? : Option StructId) : Struct where
  name := name
  fields := { name := "a", type := .ofBase .double } ::
    bytes.map fun name => { name, type := .ofBase .int8 }
  parent? := parent?
  cppLayout := true
  cppLayoutPod := true

/-- A chain of three structures: the second adds a field, the third none. -/
def chain : Store where
  structs := ⟨#[some (chainLink "A" ["b"] none), some (chainLink "B" ["b", "c"] (some ⟨0⟩)),
    some (chainLink "C" ["b", "c"] (some ⟨1⟩))]⟩

theorem chain_root : chain.Lineage ⟨0⟩ (chainLink "A" ["b"] none) := .root rfl rfl

theorem chain_second : chain.Derives ⟨1⟩ ⟨0⟩ (chainLink "B" ["b", "c"] (some ⟨0⟩))
    (chainLink "A" ["b"] none) (chainLink "A" ["b"] none).fields
    [{ name := "c", type := .ofBase .int8 }] :=
  ⟨⟨rfl, rfl, List.forall_mem_singleton.2 rfl⟩, rfl, rfl, rfl, rfl, rfl⟩

theorem inherited_places_iff_chain :
    (chain.structPlaces (chainLink "B" ["b", "c"] (some ⟨0⟩))).take 2 =
      chain.structPlaces (chainLink "A" ["b"] none) ∧
    chain.structSize ⟨0⟩ = .ok 16 ∧ chain.structSize ⟨1⟩ = .ok 24 ∧ 16 ≤ 24 := by
  have small : chain.structSize ⟨0⟩ = .ok 16 := by decide +kernel
  have great : chain.structSize ⟨1⟩ = .ok 24 := by decide +kernel
  have closed : ¬ chain.Gap ⟨0⟩ (chainLink "A" ["b"] none) :=
    chain_root.packed_iff.1 (structPlaces_root rfl)
  obtain ⟨-, places, -, size, -⟩ :=
    inherited_places_iff chain_second (by decide) great small chain_root
  exact ⟨places.2 closed, small, great, size closed⟩

/-- What the second structure adds starts behind the whole first one, but not in the third, which is
smaller than the second. -/
theorem inherited_places_move_chain :
    chain.Lineage ⟨1⟩ (chainLink "B" ["b", "c"] (some ⟨0⟩)) ∧
    chain.Derives ⟨2⟩ ⟨1⟩ (chainLink "C" ["b", "c"] (some ⟨1⟩))
      (chainLink "B" ["b", "c"] (some ⟨0⟩)) (chainLink "B" ["b", "c"] (some ⟨0⟩)).fields [] ∧
    (∀ f ∈ (chainLink "C" ["b", "c"] (some ⟨1⟩)).fields, (chain.alignOf f.type).isPowerOfTwo) ∧
    chain.structPlaces (chainLink "B" ["b", "c"] (some ⟨0⟩)) = [⟨0, 8⟩, ⟨8, 1⟩, ⟨16, 1⟩] ∧
    chain.structPlaces (chainLink "C" ["b", "c"] (some ⟨1⟩)) = [⟨0, 8⟩, ⟨8, 1⟩, ⟨9, 1⟩] ∧
    chain.structSize ⟨1⟩ = .ok 24 ∧ chain.structSize ⟨2⟩ = .ok 16 := by
  refine ⟨.derived chain_second chain_root, ?_, by decide, by decide +kernel, by decide +kernel,
    by decide +kernel, by decide +kernel⟩
  exact ⟨⟨rfl, rfl, nofun⟩, rfl, rfl, rfl, rfl, rfl⟩

end Store

end Frontend
