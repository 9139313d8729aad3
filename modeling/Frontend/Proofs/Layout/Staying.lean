import Frontend.Proofs.Layout.Containment
import Frontend.Ty.Text

/-!
# Types whose declarations stay

A type leads to its nested types, to the structure that it or its annotation is linked to, and from
there to the types of the fields and to the parent. As long as all declarations on the way stay what
they are, up to the modules that they are stamped with, the type keeps its alignment, its size, its
text, and the answers to how its values may be copied.
-/

namespace Frontend

open Relation

def Struct.unstamped (x : Struct) : Struct := { x with module? := none }

theorem Struct.eq_of_unstamped {x y : Struct} (h : y.unstamped = x.unstamped) :
    y = { x with module? := y.module? } := by
  cases x
  cases y
  cases h
  rfl

def Enumeration.unstamped (e : Enumeration) : Enumeration := { e with module? := none }

def Annot.unstamped (a : Annot) : Annot := { a with module? := none }

/-- What holds of a type if it holds of its nested types holds of every type. -/
theorem Ty.induction_nested {P : Ty → Prop} (step : ∀ t, (∀ u ∈ t.nested, P u) → P t) (t : Ty) :
    P t := step t fun u _ => induction_nested step u
termination_by sizeOf t
decreasing_by
  rename_i hu
  obtain ⟨base, first, second, args⟩ := t
  simp only [Ty.nested, List.mem_append, Option.mem_toList] at hu
  simp only [Ty.mk.sizeOf_spec]
  rcases hu with (rfl | rfl) | hu
  · simp only [Option.some.sizeOf_spec]
    omega
  · simp only [Option.some.sizeOf_spec]
    omega
  · have := List.sizeOf_lt_of_mem hu
    omega

theorem Ty.mem_nested_of_args {t u : Ty} (h : u ∈ t.args) : u ∈ t.nested :=
  List.mem_append_right _ h

namespace Store

inductive Leads (s : Store) : Ty → Ty → Prop
  | nested {u v : Ty} (h : v ∈ u.nested) : Leads s u v
  | struct {u : Ty} {id : StructId} (h : u.struct? = some id) : Leads s u (.struct id)
  | bound {u : Ty} {id : StructId} (h : s.boundStruct? u = some id) : Leads s u (.struct id)
  | field {id : StructId} {x : Struct} {f : Field} (hx : s.struct? id = some x)
    (hf : f ∈ x.fields) : Leads s (.struct id) f.type
  | parent {id up : StructId} {x : Struct} (hx : s.struct? id = some x)
    (hup : x.parent? = some up) : Leads s (.struct id) (.struct up)

/-- The declarations that a type is linked to are the same in both stores, up to the modules that
they are stamped with. -/
structure SameBehind (s t : Store) (u : Ty) : Prop where
  struct (id : StructId) : u.struct? = some id →
    (t.struct? id).map (·.unstamped) = (s.struct? id).map (·.unstamped)
  enumeration (id : EnumId) : u.enum? = some id →
    (t.enumeration? id).map (·.unstamped) = (s.enumeration? id).map (·.unstamped)
  annot (id : AnnotId) : u.annot? = some id →
    (t.annot? id).map (·.unstamped) = (s.annot? id).map (·.unstamped)

def StaysFor (s t : Store) (u : Ty) : Prop := ∀ v, ReflTransGen s.Leads u v → s.SameBehind t v

variable {s t : Store} {u v : Ty} {id : StructId} {x y : Struct}

theorem StaysFor.here (h : s.StaysFor t u) : s.SameBehind t u := h u .refl

theorem StaysFor.step (h : s.StaysFor t u) (huv : s.Leads u v) : s.StaysFor t v :=
  fun w hw => h w (.head huv hw)

theorem StaysFor.args (h : s.StaysFor t u) (hv : v ∈ u.args) : s.StaysFor t v :=
  h.step (.nested (Ty.mem_nested_of_args hv))

/-- Both stores have the structure, or neither. -/
theorem StaysFor.structs (h : s.StaysFor t (.struct id)) :
    (s.struct? id = none ∧ t.struct? id = none) ∨
      ∃ x module?, s.struct? id = some x ∧ t.struct? id = some { x with module? } := by
  have same := h.here.struct id rfl
  cases hx : s.struct? id with
  | none =>
    rw [hx] at same
    exact .inl ⟨rfl, Option.map_eq_none_iff.1 same⟩
  | some x =>
    rw [hx] at same
    obtain ⟨y, hy, hxy⟩ := Option.map_eq_some_iff.1 same
    exact .inr ⟨x, y.module?, rfl, Struct.eq_of_unstamped hxy ▸ hy⟩

theorem SameBehind.liveStruct? (h : s.SameBehind t u) : t.liveStruct? u = s.liveStruct? u := by
  unfold Store.liveStruct?
  cases hu : u.struct? with
  | none => rfl
  | some id =>
    have alive := congrArg Option.isSome (h.struct id hu)
    rw [Option.isSome_map, Option.isSome_map] at alive
    rw [Option.filter_some, Option.filter_some, Table.isAlive, Table.isAlive]
    exact congrArg (fun b : Bool => if b then some id else none) alive

/-- A link leads to the same in two stores, as far as what it leads to is the same. -/
theorem map_link {ι α β : Type} {link : Option ι} {f g : ι → Option α} {erase : α → α}
    (h : ∀ id, link = some id → (f id).map erase = (g id).map erase) {read : α → β}
    (hread : ∀ a, read (erase a) = read a) :
    (link.bind f).map read = (link.bind g).map read := by
  have erased : read = read ∘ erase := funext fun a => (hread a).symm
  cases link with
  | none => rfl
  | some id =>
    rw [Option.bind_some, Option.bind_some, erased, ← Option.map_map, ← Option.map_map, h id rfl]

/-- A measure of an annotation asks the structure that it is bound to, if anything. -/
theorem SameBehind.annotMeasure {α : Type} (h : s.SameBehind t u) {native : Nat → Nat → Bool → α}
    {f g : StructId → Except Fault α} {unbound : α}
    (hfg : ∀ id, s.boundStruct? u = some id → f id = g id) :
    t.annotMeasure u native f unbound = s.annotMeasure u native g unbound := by
  have same : (u.annot?.bind t.annot?).map Annot.kind = (u.annot?.bind s.annot?).map Annot.kind :=
    map_link h.annot fun _ => rfl
  unfold Store.boundStruct? at hfg
  unfold Store.annotMeasure
  cases ha : u.annot?.bind s.annot? with
  | none =>
    rw [ha] at same
    rw [Option.map_eq_none_iff.1 same]
  | some a =>
    rw [ha] at same hfg
    obtain ⟨b, hb, kind⟩ := Option.map_eq_some_iff.1 same
    rw [hb]
    have bound : b.bound? = a.bound? := by
      unfold Annot.bound?
      rw [kind]
    dsimp only
    rw [kind, bound]
    cases hid : a.bound? with
    | none => rfl
    | some id =>
      dsimp only
      rw [hfg id hid]

section Align

variable {f g : StructId → Except Fault Nat}

theorem alignsWith_congr {ts : List Ty} (h : ∀ u ∈ ts, t.alignWith f u = s.alignWith g u) :
    t.alignsWith f ts = s.alignsWith g ts := by
  induction ts with
  | nil => rfl
  | cons u ts ih =>
    obtain ⟨hu, hts⟩ := List.forall_mem_cons.1 h
    rw [alignsWith, alignsWith, hu, ih hts]

theorem StaysFor.alignWith (h : s.StaysFor t u)
    (hfg : ∀ id, s.StaysFor t (.struct id) → f id = g id) :
    t.alignWith f u = s.alignWith g u := by
  induction u using Ty.induction_nested with
  | step u ih =>
    have parts : t.alignsWith f u.args = s.alignsWith g u.args :=
      alignsWith_congr fun v hv => ih v (Ty.mem_nested_of_args hv) (h.args hv)
    have measure : t.annotMeasure u (fun _ align _ => align) f 1 =
        s.annotMeasure u (fun _ align _ => align) g 1 :=
      h.here.annotMeasure fun id hid => hfg id (h.step (.bound hid))
    rw [alignWith_eq, alignWith_eq, h.here.liveStruct?, measure, parts]
    cases live : s.liveStruct? u with
    | none => rfl
    | some id =>
      dsimp only
      rw [hfg id (h.step (.struct (Option.filter_eq_some_iff.1 live).1))]

theorem StaysFor.structAlignIn (steps : Nat) (h : s.StaysFor t (.struct id)) :
    t.structAlignIn steps id = s.structAlignIn steps id := by
  induction steps generalizing id with
  | zero => rfl
  | succ steps ih =>
    unfold Store.structAlignIn
    rcases h.structs with ⟨hx, hy⟩ | ⟨x, module?, hx, hy⟩
    · rw [hx, hy]
    · have parts : t.alignsWith (t.structAlignIn steps) (x.fields.map (·.type)) =
          s.alignsWith (s.structAlignIn steps) (x.fields.map (·.type)) :=
        alignsWith_congr <| List.forall_mem_map.2 fun f hf =>
          (h.step (.field hx hf)).alignWith fun id hid => ih hid
      rw [hx, hy]
      dsimp only
      rw [parts]

theorem StaysFor.typeAlign (h : s.StaysFor t u)
    (hsize : t.structs.slots.size = s.structs.slots.size) : t.typeAlign u = s.typeAlign u := by
  refine h.alignWith fun id hid => ?_
  rw [structAlign, structAlign, structSteps, structSteps, hsize]
  exact hid.structAlignIn _

end Align

section Copy

variable {f g : CopyQuery → StructId → Except Fault Bool} {q : CopyQuery}

theorem copyOptionWith_congr {o : Option Ty}
    (h : ∀ u ∈ o.toList, t.copyWith f q u = s.copyWith g q u) :
    t.copyOptionWith f q o = s.copyOptionWith g q o := by
  cases o with
  | none => rfl
  | some u => exact h u (List.mem_singleton_self u)

theorem copyAllWith_congr {ts : List Ty} (h : ∀ u ∈ ts, t.copyWith f q u = s.copyWith g q u) :
    t.copyAllWith f q ts = s.copyAllWith g q ts := by
  induction ts with
  | nil => rfl
  | cons u ts ih =>
    obtain ⟨hu, hts⟩ := List.forall_mem_cons.1 h
    rw [copyAllWith, copyAllWith, hu, ih hts]

theorem StaysFor.copyWith (h : s.StaysFor t u)
    (hfg : ∀ q id, s.StaysFor t (.struct id) → f q id = g q id) :
    t.copyWith f q u = s.copyWith g q u := by
  induction u using Ty.induction_nested with
  | step u ih =>
    have nested (v : Ty) (hv : v ∈ u.nested) : t.copyWith f q v = s.copyWith g q v :=
      ih v hv (h.step (.nested hv))
    have first : t.copyOptionWith f q u.first = s.copyOptionWith g q u.first :=
      copyOptionWith_congr fun v hv => nested v <|
        List.mem_append_left _ (List.mem_append_left _ hv)
    have second : t.copyOptionWith f q u.second = s.copyOptionWith g q u.second :=
      copyOptionWith_congr fun v hv => nested v <|
        List.mem_append_left _ (List.mem_append_right _ hv)
    have args : t.copyAllWith f q u.args = s.copyAllWith g q u.args :=
      copyAllWith_congr fun v hv => nested v (Ty.mem_nested_of_args hv)
    have measure : t.annotMeasure u (fun _ _ pod => pod) (f .pod) false =
        s.annotMeasure u (fun _ _ pod => pod) (g .pod) false :=
      h.here.annotMeasure fun id hid => hfg .pod id (h.step (.bound hid))
    rw [copyWith_eq, copyWith_eq, h.here.liveStruct?, measure, first, second, args]
    cases live : s.liveStruct? u with
    | none => rfl
    | some id =>
      dsimp only
      rw [hfg q id (h.step (.struct (Option.filter_eq_some_iff.1 live).1))]

theorem StaysFor.structCopyIn (steps : Nat) (h : s.StaysFor t (.struct id)) :
    t.structCopyIn steps q id = s.structCopyIn steps q id := by
  induction steps generalizing q id with
  | zero => rfl
  | succ steps ih =>
    unfold Store.structCopyIn
    rcases h.structs with ⟨hx, hy⟩ | ⟨x, module?, hx, hy⟩
    · rw [hx, hy]
    · rw [hx, hy]
      exact copyAllWith_congr <| List.forall_mem_map.2 fun f hf =>
        (h.step (.field hx hf)).copyWith fun q id hid => ih hid

theorem StaysFor.typeCopy (h : s.StaysFor t u)
    (hsize : t.structs.slots.size = s.structs.slots.size) (q : CopyQuery) :
    t.typeCopy q u = s.typeCopy q u := by
  refine h.copyWith fun q id hid => ?_
  rw [structCopy, structCopy, structSteps, structSteps, hsize]
  exact hid.structCopyIn _

end Copy

section Size

variable {f g : StructId → Except Fault Nat}

theorem tupleSizeWith_congr {ts : List Ty} (size : Nat)
    (h : ∀ u ∈ ts, t.sizeWith f u = s.sizeWith g u ∧ t.typeAlign u = s.typeAlign u) :
    t.tupleSizeWith f size ts = s.tupleSizeWith g size ts := by
  induction ts generalizing size with
  | nil => rfl
  | cons u ts ih =>
    obtain ⟨⟨hu, halign⟩, hts⟩ := List.forall_mem_cons.1 h
    simp only [tupleSizeWith, hu, halign, ih _ hts]

theorem sizesWith_congr {ts : List Ty} (h : ∀ u ∈ ts, t.sizeWith f u = s.sizeWith g u) :
    t.sizesWith f ts = s.sizesWith g ts := by
  induction ts with
  | nil => rfl
  | cons u ts ih =>
    obtain ⟨hu, hts⟩ := List.forall_mem_cons.1 h
    rw [sizesWith, sizesWith, hu, ih hts]

variable (hsize : t.structs.slots.size = s.structs.slots.size)

include hsize

theorem StaysFor.sizeWith (h : s.StaysFor t u)
    (hfg : ∀ id, s.StaysFor t (.struct id) → f id = g id) :
    t.sizeWith f u = s.sizeWith g u := by
  induction u using Ty.induction_nested with
  | step u ih =>
    have args (v : Ty) (hv : v ∈ u.args) :
        t.sizeWith f v = s.sizeWith g v ∧ t.typeAlign v = s.typeAlign v :=
      ⟨ih v (Ty.mem_nested_of_args hv) (h.args hv), (h.args hv).typeAlign hsize⟩
    have measure : t.annotMeasure u (fun size _ _ => size) f 0 =
        s.annotMeasure u (fun size _ _ => size) g 0 :=
      h.here.annotMeasure fun id hid => hfg id (h.step (.bound hid))
    have element : t.elementSizeWith f u = s.elementSizeWith g u := by
      unfold elementSizeWith
      rw [h.here.liveStruct?, measure, tupleSizeWith_congr 0 args,
        sizesWith_congr fun v hv => (args v hv).1, h.typeAlign hsize]
      cases live : s.liveStruct? u with
      | none => rfl
      | some id =>
        dsimp only
        rw [hfg id (h.step (.struct (Option.filter_eq_some_iff.1 live).1))]
    rw [sizeWith_eq, sizeWith_eq, element]

omit hsize in
/-- The owner of a field asks the parent, which the structure leads to. -/
theorem StaysFor.fieldOwner? {module? : Option String} (h : s.StaysFor t (.struct id))
    (hx : s.struct? id = some x) (name : String) :
    t.fieldOwner? { x with module? } name = s.fieldOwner? x name := by
  unfold Store.fieldOwner?
  cases hup : x.parent? with
  | none => rfl
  | some up =>
    rw [Option.bind_some, Option.bind_some]
    rcases (h.step (.parent hx hup)).structs with ⟨hx', hy'⟩ | ⟨x', module?, hx', hy'⟩
    · rw [hx', hy']
      rfl
    · rw [hx', hy']
      rfl

omit hsize in
theorem parent?_of_fieldOwner? {name : String} {up : StructId}
    (h : s.fieldOwner? x name = some (.parent up)) : x.parent? = some up := by
  unfold Store.fieldOwner? at h
  split at h
  · rename_i hup _
    cases h
    exact hup
  · obtain ⟨_, -, h⟩ := Option.map_eq_some_iff.1 h
    cases h

/-- The fields of a structure end where they did: their types, and the parent if they start behind
it, are what the structure leads to. -/
theorem StaysFor.fieldsEnd {module? : Option String} (h : s.StaysFor t (.struct id))
    (hx : s.struct? id = some x) (hfg : ∀ id, s.StaysFor t (.struct id) → f id = g id)
    {fields : List Field} (hfields : ∀ f ∈ fields, f ∈ x.fields) (size : Nat)
    {previous : Option FieldOwner}
    (hprevious : ∀ up, previous = some (.parent up) → x.parent? = some up) :
    t.fieldsEnd { x with module? } f size previous fields =
      s.fieldsEnd x g size previous fields := by
  induction fields generalizing size previous with
  | nil => rfl
  | cons first fields ih =>
    obtain ⟨hfirst, hrest⟩ := List.forall_mem_cons.1 hfields
    have type := h.step (.field hx hfirst)
    set owner := if x.cppLayout then s.fieldOwner? x first.name else previous with howner
    have base : fieldBase { x with module? } f size previous owner =
        fieldBase x g size previous owner := by
      unfold fieldBase
      dsimp only
      split
      · split
        · rename_i up _
          exact hfg up (h.step (.parent hx (hprevious up rfl)))
        · rfl
      · rfl
    have next (up : StructId) (hup : owner = some (.parent up)) : x.parent? = some up := by
      rw [howner] at hup
      split at hup
      · exact parent?_of_fieldOwner? hup
      · exact hprevious up hup
    simp only [Store.fieldsEnd, h.fieldOwner? hx, ← howner, base, type.typeAlign hsize,
      type.sizeWith hsize hfg, ih hrest _ next]

theorem StaysFor.structSizeIn (steps : Nat) (h : s.StaysFor t (.struct id)) :
    t.structSizeIn steps id = s.structSizeIn steps id := by
  induction steps generalizing id with
  | zero => rfl
  | succ steps ih =>
    unfold Store.structSizeIn
    have align : t.structAlign id = s.structAlign id := by
      rw [structAlign, structAlign, structSteps, structSteps, hsize]
      exact h.structAlignIn _
    rcases h.structs with ⟨hx, hy⟩ | ⟨x, module?, hx, hy⟩
    · rw [hx, hy]
    · rw [hx, hy]
      have stop : t.fieldsEnd { x with module? } (t.structSizeIn steps) 0 none x.fields =
          s.fieldsEnd x (s.structSizeIn steps) 0 none x.fields :=
        h.fieldsEnd hsize hx (fun id hid => ih hid) (fun _ hf => hf) 0 (by simp)
      dsimp only
      rw [stop, align]

theorem StaysFor.typeSize (h : s.StaysFor t u) : t.typeSize u = s.typeSize u := by
  refine h.sizeWith hsize fun id hid => ?_
  rw [structSize, structSize, structSteps, structSteps, hsize]
  exact hid.structSizeIn hsize _

end Size

section Text

theorem typeText_eq (s : Store) (u : Ty) : s.typeText u =
    s.typeTextWith u (s.typeTextOption u.first) (s.typeTextOption u.second)
      (s.typeTextList u.args) := by
  obtain ⟨⟩ := u
  rfl

theorem typeTextOption_congr {o : Option Ty} (h : ∀ u ∈ o.toList, t.typeText u = s.typeText u) :
    t.typeTextOption o = s.typeTextOption o := by
  cases o with
  | none => rfl
  | some u => exact congrArg some (h u (List.mem_singleton_self u))

theorem typeTextList_congr {ts : List Ty} (h : ∀ u ∈ ts, t.typeText u = s.typeText u) :
    t.typeTextList ts = s.typeTextList ts := by
  induction ts with
  | nil => rfl
  | cons u ts ih =>
    obtain ⟨hu, hts⟩ := List.forall_mem_cons.1 h
    rw [typeTextList, typeTextList, hu, ih hts]

theorem SameBehind.typeTextWith (h : s.SameBehind t u) (first second : Option String)
    (args : List String) :
    t.typeTextWith u first second args = s.typeTextWith u first second args := by
  have struct : (u.struct?.bind t.struct?).map (·.name) =
      (u.struct?.bind s.struct?).map (·.name) := map_link h.struct fun _ => rfl
  have enumeration : (u.enum?.bind t.enumeration?).map (·.name) =
      (u.enum?.bind s.enumeration?).map (·.name) := map_link h.enumeration fun _ => rfl
  have annot : (u.annot?.bind t.annot?).map (·.name) =
      (u.annot?.bind s.annot?).map (·.name) := map_link h.annot fun _ => rfl
  unfold Store.typeTextWith
  rw [struct, enumeration, annot]

theorem StaysFor.typeText (h : s.StaysFor t u) : t.typeText u = s.typeText u := by
  induction u using Ty.induction_nested with
  | step u ih =>
    have nested (v : Ty) (hv : v ∈ u.nested) : t.typeText v = s.typeText v :=
      ih v hv (h.step (.nested hv))
    rw [typeText_eq, typeText_eq, h.here.typeTextWith,
      typeTextOption_congr fun v hv => nested v <|
        List.mem_append_left _ (List.mem_append_left _ hv),
      typeTextOption_congr fun v hv => nested v <|
        List.mem_append_left _ (List.mem_append_right _ hv),
      typeTextList_congr fun v hv => nested v (Ty.mem_nested_of_args hv)]

end Text

end Store

end Frontend
