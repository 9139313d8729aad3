import Frontend.Proofs.Declaring.Deriving
import Frontend.Proofs.Layout.Essence

/-!
# Casts between structures

A structure can be cast to another if its fields are the first ones of the other, by names and
types. So casts lead from a parent to what extends it and from there on. As long as alignments are
powers of two a cast finds every field at the place that it has.
-/

namespace Frontend

def Field.essence (f : Field) : String × Ty := (f.name, f.type.essence)

/-- Elements that agree one by one, as far as the shorter list goes, are a prefix. -/
theorem all_zip_iff_prefix {α β : Type} {agree : α × α → Bool} {key : α → β}
    (h : ∀ a b, agree (a, b) = true ↔ key a = key b) (as bs : List α) :
    (decide (as.length ≤ bs.length) && (as.zip bs).all agree) = true ↔
      as.map key <+: bs.map key := by
  induction as generalizing bs with
  | nil => simp
  | cons a as ih =>
    cases bs with
    | nil => simp
    | cons b bs =>
      rw [List.map_cons, List.map_cons, List.cons_prefix_cons, ← ih bs, ← h]
      simp only [List.zip_cons_cons, List.all_cons, List.length_cons, Nat.add_le_add_iff_right,
        Bool.and_eq_true]
      tauto

namespace Struct

variable {a b c x p : Struct} {inherited own : List Field}

theorem isCompatibleCast_iff : a.isCompatibleCast b = true ↔
    a.fields.map Field.essence <+: b.fields.map Field.essence := by
  refine all_zip_iff_prefix (fun f g => ?_) a.fields b.fields
  rw [Bool.and_eq_true, beq_iff_eq, Ty.sameType_iff, Field.essence, Field.essence, Prod.mk.injEq]

theorem isCompatibleCast_refl (a : Struct) : a.isCompatibleCast a = true :=
  isCompatibleCast_iff.2 (List.prefix_refl _)

theorem isCompatibleCast_trans (hab : a.isCompatibleCast b = true)
    (hbc : b.isCompatibleCast c = true) : a.isCompatibleCast c = true :=
  isCompatibleCast_iff.2 ((isCompatibleCast_iff.1 hab).trans (isCompatibleCast_iff.1 hbc))

/-- Every field of what can be cast has one like it in what it is cast to. -/
theorem exists_of_cast (cast : a.isCompatibleCast b = true) {f : Field} (hf : f ∈ a.fields) :
    ∃ g ∈ b.fields, f.type.essence = g.type.essence := by
  obtain ⟨g, hg, same⟩ := List.mem_map.1
    ((isCompatibleCast_iff.1 cast).subset (List.mem_map_of_mem hf))
  exact ⟨g, hg, (congrArg Prod.snd same).symm⟩

/-- A structure can be cast to whatever starts with copies of its fields. -/
theorem isCompatibleCast_of_copies (hfields : x.fields = inherited ++ own)
    (copies : inherited.map Field.outline = p.fields.map Field.outline) :
    p.isCompatibleCast x = true := by
  rw [isCompatibleCast_iff, hfields, List.map_append]
  have same : p.fields.map Field.essence = inherited.map Field.essence := by
    have := congrArg (List.map fun o : String × Ty => (o.1, o.2.essence)) copies
    rw [List.map_map, List.map_map] at this
    exact this.symm
  rw [same]
  exact List.prefix_append _ _

end Struct

namespace Store

variable {s : Store} {a b : Struct} {ida idb : StructId} {nb : Nat}

theorem fieldMeasures_eq (s : Store) (fields : List Field) :
    s.fieldMeasures fields = (fields.map Field.essence).map fun e => s.measure e.2 := by
  rw [fieldMeasures, List.map_map]
  exact List.map_congr_left fun f _ => (measure_essence f.type).symm

/-- What can be cast lies in the first places of what it is cast to. -/
theorem take_structPlaces (cast : a.isCompatibleCast b = true) (ha : a.isNative = false)
    (hb : b.isNative = false) :
    (s.structPlaces b).take a.fields.length = s.structPlaces a := by
  obtain ⟨rest, hrest⟩ := (Struct.isCompatibleCast_iff.1 cast).map fun e => s.measure e.2
  rw [structPlaces_plain ha, structPlaces_plain hb, fieldMeasures_eq s b.fields, ← hrest,
    ← fieldMeasures_eq, pack_append]
  apply List.take_left'
  rw [length_pack, fieldMeasures, List.length_map]

section Size

variable {f : StructId → Except Fault Nat} {ts us : List Ty} {size stop : Nat}

theorem tupleSizeWith_append (size : Nat) (ts us : List Ty) :
    s.tupleSizeWith f size (ts ++ us) =
      s.tupleSizeWith f size ts >>= fun stop => s.tupleSizeWith f stop us := by
  induction ts generalizing size with
  | nil => rfl
  | cons t ts ih => simp only [List.cons_append, tupleSizeWith, ih, bind_assoc]

theorem le_of_tupleSizeWith (h : s.tupleSizeWith f size ts = .ok stop) : size ≤ stop := by
  induction ts generalizing size with
  | nil =>
    cases h
    exact Nat.le_refl _
  | cons t ts ih =>
    obtain ⟨align, -, h⟩ := ok_of_bind h
    obtain ⟨start, hstart, h⟩ := ok_of_bind h
    obtain ⟨element, -, h⟩ := ok_of_bind h
    obtain ⟨next, hnext, h⟩ := ok_of_bind h
    have := ih h
    have := le_roundUp size align
    have := eq_of_alignUp hstart
    have := eq_of_addSizes hnext
    omega

/-- The fields of what can be cast end in words, and not behind those of what it is cast to. -/
theorem fieldsEnd_of_cast (cast : a.isCompatibleCast b = true) (ha : a.isNative = false)
    (hb : b.isNative = false) (h : s.fieldsEnd b f 0 none b.fields = .ok stop) :
    ∃ earlier, s.fieldsEnd a f 0 none a.fields = .ok earlier ∧ earlier ≤ stop := by
  have types (x : Struct) (plain : x.isNative = false) : s.fieldsEnd x f 0 none x.fields =
      s.tupleSizeWith f 0 ((x.fields.map Field.essence).map Prod.snd) := by
    rw [fieldsEnd_plain plain,
      ← tupleSizeWith_map 0 typeAlign_essence fun t _ => sizeWith_essence t, List.map_map,
      List.map_map]
    rfl
  obtain ⟨rest, hrest⟩ := (Struct.isCompatibleCast_iff.1 cast).map Prod.snd
  rw [types b hb, ← hrest, tupleSizeWith_append] at h
  obtain ⟨earlier, hearlier, h⟩ := ok_of_bind h
  exact ⟨earlier, (types a ha).trans hearlier, le_of_tupleSizeWith h⟩

/-- The alignment of what can be cast is known, and divides that of what it is cast to. -/
theorem structAlign_of_cast (cast : a.isCompatibleCast b = true) {n : Nat}
    (hida : s.struct? ida = some a) (hidb : s.struct? idb = some b)
    (hn : s.structAlign idb = .ok n)
    (powers : ∀ f ∈ b.fields, (s.alignOf f.type).isPowerOfTwo) :
    ∃ m, s.structAlign ida = .ok m ∧ m.isPowerOfTwo ∧ n.isPowerOfTwo ∧ m ≤ n := by
  have known : Answers (s.structAlign ida) := by
    rw [answers_structAlign_iff hida]
    intro f hf
    obtain ⟨g, hg, same⟩ := Struct.exists_of_cast cast hf
    rw [← alignWith_essence, same, alignWith_essence]
    exact (answers_structAlign_iff hidb).1 ⟨n, hn⟩ g hg
  obtain ⟨m, hm⟩ := known
  have like (f : Field) (hf : f ∈ a.fields) :
      ∃ g ∈ b.fields, s.alignOf g.type = s.alignOf f.type := by
    obtain ⟨g, hg, same⟩ := Struct.exists_of_cast cast hf
    exact ⟨g, hg, by rw [← alignOf_essence, ← same, alignOf_essence]⟩
  refine ⟨m, hm, isPowerOfTwo_structAlign hida hm fun f hf => ?_,
    isPowerOfTwo_structAlign hidb hn powers, ?_⟩
  · obtain ⟨g, hg, same⟩ := like f hf
    exact same ▸ powers g hg
  · rw [eq_of_structAlign hida hm, eq_of_structAlign hidb hn]
    apply max_maxAlign_mono
    exact List.forall_mem_map.2 fun f hf => List.mem_map.2 (like f hf)

/-- What can be cast has a size if what it is cast to has one, and no greater one. -/
theorem structSize_of_cast (cast : a.isCompatibleCast b = true)
    (hida : s.struct? ida = some a) (hidb : s.struct? idb = some b)
    (ha : a.isNative = false) (hb : b.isNative = false)
    (powers : ∀ f ∈ b.fields, (s.alignOf f.type).isPowerOfTwo) (hnb : s.structSize idb = .ok nb) :
    ∃ na, s.structSize ida = .ok na ∧ na ≤ nb := by
  unfold structSize structSteps structSizeIn at hnb ⊢
  rw [hidb] at hnb
  rw [hida]
  obtain ⟨stop, hstop, hnb⟩ := ok_of_bind hnb
  obtain ⟨n, hn, hnb⟩ := ok_of_bind hnb
  obtain ⟨earlier, hearlier, hle⟩ := fieldsEnd_of_cast cast ha hb hstop
  obtain ⟨m, hm, hm2, hn2, hmn⟩ := structAlign_of_cast cast hida hidb hn powers
  have fits : earlier + max m 1 < sizeLimit := by
    rw [alignUp_eq] at hnb
    split at hnb
    · omega
    · cases hnb
  refine ⟨roundUp earlier m, ?_, ?_⟩
  · dsimp only
    rw [hearlier, hm]
    exact (alignUp_eq earlier m).trans (if_pos fits)
  · rw [eq_of_alignUp hnb]
    apply roundUp_le_roundUp hle
    rw [max_one_of_isPowerOfTwo hm2, max_one_of_isPowerOfTwo hn2]
    exact dvd_of_isPowerOfTwo hm2 hn2 hmn

end Size

/-- Casts form a preorder and lead from a parent to what is derived from it, declared structures
included. Without native layouts a cast finds every field at its place, and what can be cast is no
greater than what it is cast to. -/
theorem casts_lawful :
    (∀ a : Struct, a.isCompatibleCast a = true) ∧
    (∀ a b c : Struct, a.isCompatibleCast b = true → b.isCompatibleCast c = true →
      a.isCompatibleCast c = true) ∧
    (∀ (s t : Store) (parent : StructId) (name : String) (span : Span) (p x : Struct)
        (own : List Field), s.struct? parent = some p →
      s.deriveStruct name parent span = .ok (x, t) →
      p.isCompatibleCast { x with fields := x.fields ++ own } = true) ∧
    (∀ (p q : Program) (parent id : StructId) (x : Struct) (name : String) (span : Span)
        (lines : List Line) (annots : List AnnotUse), p.store.struct? parent = some x →
      (Program.makeStruct span name (some parent) lines annots).run p = .ok (some id, q) →
      ∃ x' y, q.store.struct? parent = some x' ∧ x'.fields = x.fields ∧
        q.store.struct? id = some y ∧ y.parent? = some parent ∧ x'.isCompatibleCast y = true) ∧
    (∀ (s : Store) (ida idb : StructId) (a b : Struct), s.struct? ida = some a →
      s.struct? idb = some b → a.isCompatibleCast b = true → a.cppLayout = false →
      b.cppLayout = false → (∀ f ∈ b.fields, (s.alignOf f.type).isPowerOfTwo) →
      (s.structPlaces b).take a.fields.length = s.structPlaces a ∧
      ∀ nb, s.structSize idb = .ok nb → ∃ na, s.structSize ida = .ok na ∧ na ≤ nb ∧
        na = roundUp (stopFrom 0 (s.structPlaces a)) (s.structAlignOf ida) ∧
        nb = roundUp (stopFrom 0 (s.structPlaces b)) (s.structAlignOf idb)) := by
  refine ⟨Struct.isCompatibleCast_refl, fun _ _ _ => Struct.isCompatibleCast_trans, ?_, ?_, ?_⟩
  · intro s t parent name span p x own hp hx
    exact Struct.isCompatibleCast_of_copies rfl (deriveStruct_ok hp hx).2
  · intro p q parent id x name span lines annots hx hrun
    obtain ⟨kept, y, inherited, own, hy, hparent, extends_⟩ :=
      Program.makeStruct_derives span name lines annots hx _ _ hrun id rfl
    obtain ⟨module?, hx'⟩ := kept parent x hx
    refine ⟨_, y, hx', rfl, hy, hparent, ?_⟩
    exact Struct.isCompatibleCast_of_copies extends_.fields extends_.copies
  · intro s ida idb a b hida hidb cast ha hb powers
    replace ha := Struct.isNative_eq_false ha
    replace hb := Struct.isNative_eq_false hb
    refine ⟨take_structPlaces cast ha hb, fun nb hnb => ?_⟩
    obtain ⟨na, hna, hle⟩ := structSize_of_cast cast hida hidb ha hb powers hnb
    exact ⟨na, hna, hle, (eq_of_structSize hida hna).1, (eq_of_structSize hidb hnb).1⟩

def pointed : Program where
  store :=
    { structs := ⟨#[some { name := "Point", fields := [
        { name := "x", type := .ofBase .int8 }, { name := "y", type := .ofBase .double }] }]⟩
      modules := ⟨#[some { name := "" }]⟩ }
  library := [⟨0⟩]
  this := ⟨0⟩

def shade : Line := { names := [("shade", .builtin)], type := some (.ofBase .int8) }

def pixeled : Program :=
  (((Program.makeStruct .builtin "Pixel" (some ⟨0⟩) [shade] []).run pointed).toOption.map
    (·.2)).getD pointed

theorem casts_lawful_pixeled : ∃ point pixel,
    pixeled.store.struct? ⟨0⟩ = some point ∧ pixeled.store.struct? ⟨1⟩ = some pixel ∧
    point.isCompatibleCast { name := "Pixel", fields := point.fields ++ [], span := .builtin,
                             parent? := some ⟨0⟩ } = true ∧
    point.isCompatibleCast point = true ∧ point.isCompatibleCast pixel = true ∧
    pixeled.store.structPlaces pixel = [⟨0, 1⟩, ⟨8, 8⟩, ⟨16, 1⟩] ∧
    (pixeled.store.structPlaces pixel).take 2 = pixeled.store.structPlaces point ∧
    ∃ n, pixeled.store.structSize ⟨0⟩ = .ok n ∧ n ≤ 24 := by
  obtain ⟨refl, trans, derived, declared, layout⟩ := casts_lawful
  obtain ⟨point, pixel, hpoint, -, hpixel, -, cast⟩ :=
    declared pointed pixeled ⟨0⟩ ⟨1⟩ _ "Pixel" .builtin [shade] [] rfl rfl
  refine ⟨point, pixel, hpoint, hpixel, ?_, refl point, trans _ _ _ (refl point) cast, ?_⟩
  all_goals
    cases hpoint
    cases hpixel
  · exact derived pixeled.store pixeled.store ⟨0⟩ "Pixel" .builtin _
      { name := "Pixel", fields := _, span := .builtin, parent? := some ⟨0⟩ } [] rfl rfl
  · obtain ⟨places, size⟩ := layout pixeled.store ⟨0⟩ ⟨1⟩ _ _ rfl rfl cast rfl rfl (by decide)
    obtain ⟨n, hn, hle, -⟩ := size 24 (by decide +kernel)
    exact ⟨by decide +kernel, places, n, hn, hle⟩

end Store

end Frontend
