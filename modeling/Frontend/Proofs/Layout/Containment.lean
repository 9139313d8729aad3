import Frontend.Proofs.Cycle
import Frontend.Proofs.Table
import Frontend.Ty.Copying

/-!
# Types that contain structures by value

A type holds a structure by value if it is that structure, an array of it with fixed dimensions, an
annotation that is bound to it, or a tuple or variant of a type that holds it. Alignment asks
exactly the structures that a type holds, so it has an answer as long as none of them contains
itself. What may be copied or moved asks no others. Sizes ask one structure more: with the native
layout of a plain parent, that parent.
-/

namespace Frontend

variable {α β : Type}

def Answers (m : Except Fault α) : Prop := ∃ a, m = .ok a

/-- The work does not go on without end; it may meet another fault. -/
def Halts (m : Except Fault α) : Prop := m ≠ .error .endless

section Work

variable {m : Except Fault α} {k : α → Except Fault β}

theorem Answers.halts (h : Answers m) : Halts m := by
  obtain ⟨a, rfl⟩ := h
  exact fun endless => by cases endless

theorem answers_ok (a : α) : Answers (.ok a : Except Fault α) := ⟨a, rfl⟩

theorem answers_bind : Answers (m >>= k) ↔ ∃ a, m = .ok a ∧ Answers (k a) := by
  constructor
  · rintro ⟨b, hb⟩
    cases m with
    | error fault => cases hb
    | ok a => exact ⟨a, rfl, b, hb⟩
  · rintro ⟨a, rfl, h⟩
    exact h

/-- Work that goes on with what always gives a result. -/
theorem answers_bind_of (h : ∀ a, Answers (k a)) : Answers (m >>= k) ↔ Answers m := by
  rw [answers_bind]
  exact ⟨fun ⟨a, ha, _⟩ => ⟨a, ha⟩, fun ⟨a, ha⟩ => ⟨a, ha, h a⟩⟩

theorem Halts.bind (h : Halts m) (hk : ∀ a, Halts (k a)) : Halts (m >>= k) := by
  cases m with
  | error fault => exact fun endless => h (congrArg Except.error (Except.error.inj endless))
  | ok a => exact hk a

theorem halts_ok (a : α) : Halts (.ok a : Except Fault α) := (answers_ok a).halts

theorem halts_addSizes (a b : Nat) : Halts (addSizes a b) := by
  unfold addSizes
  split <;> simp [Halts]

theorem halts_mulSizes (a b : Nat) : Halts (mulSizes a b) := by
  unfold mulSizes
  split <;> simp [Halts]

theorem halts_alignUp (size align : Nat) : Halts (alignUp size align) :=
  (halts_addSizes _ _).bind fun _ => halts_ok _

theorem halts_dimsSize (element : Nat) (dims : List Int32) :
    Halts (Store.dimsSize element dims) := by
  induction dims generalizing element with
  | nil => exact halts_ok element
  | cons d dims ih => exact (halts_mulSizes element _).bind fun size => ih size

end Work

/-- What holds of a type if it holds of its arguments holds of every type. -/
theorem Ty.induction_args {P : Ty → Prop} (step : ∀ t, (∀ u ∈ t.args, P u) → P t) (t : Ty) : P t :=
  step t fun u _ => induction_args step u
termination_by sizeOf t
decreasing_by
  rename_i hu
  have := List.sizeOf_lt_of_mem hu
  obtain ⟨⟩ := t
  simp only [Ty.mk.sizeOf_spec] at this ⊢
  omega

namespace Store

open Relation

variable {s : Store} {t : Ty} {id a b : StructId} {steps : Nat}

section Types

def boundStruct? (s : Store) (t : Ty) : Option StructId :=
  (t.annot?.bind s.annot?).bind (·.bound?)

mutual

def valueStructs (s : Store) : Ty → List StructId
  | t@{ args, .. } =>
    match t.base with
    | .struct => (s.liveStruct? t).toList
    | .handle => (s.boundStruct? t).toList
    | .tuple | .variant => s.valueStructsList args
    | _ => []

def valueStructsList (s : Store) : List Ty → List StructId
  | [] => []
  | t :: ts => s.valueStructs t ++ s.valueStructsList ts

end

theorem valueStructs_eq (s : Store) (t : Ty) : s.valueStructs t =
    match t.base with
    | .struct => (s.liveStruct? t).toList
    | .handle => (s.boundStruct? t).toList
    | .tuple | .variant => s.valueStructsList t.args
    | _ => [] := by
  obtain ⟨⟩ := t
  rfl

theorem valueStructs_of_struct (h : t.base = .struct) :
    s.valueStructs t = (s.liveStruct? t).toList := by
  rw [valueStructs_eq, h]

theorem valueStructs_struct {x : Struct} (h : s.struct? id = some x) :
    s.valueStructs (.struct id) = [id] := by
  have alive : s.structs.isAlive id = true := Option.isSome_iff_exists.2 ⟨x, h⟩
  rw [valueStructs_of_struct rfl, liveStruct?, Ty.struct, Option.filter_some, if_pos alive]
  rfl

theorem forall_mem_valueStructsList {P : StructId → Prop} {ts : List Ty} :
    (∀ id ∈ s.valueStructsList ts, P id) ↔ ∀ t ∈ ts, ∀ id ∈ s.valueStructs t, P id := by
  induction ts with
  | nil => simp [valueStructsList]
  | cons t ts ih => rw [valueStructsList, List.forall_mem_append, List.forall_mem_cons, ih]

/-- A measure of an annotation is that of the structure that it is bound to, and known if there is
none. -/
theorem annotMeasure_cases (s : Store) (t : Ty) (native : Nat → Nat → Bool → α)
    (ofStruct : StructId → Except Fault α) (unbound : α) :
    (s.boundStruct? t = none ∧ Answers (s.annotMeasure t native ofStruct unbound)) ∨
      ∃ id, s.boundStruct? t = some id ∧
        s.annotMeasure t native ofStruct unbound = ofStruct id := by
  unfold annotMeasure boundStruct?
  cases t.annot?.bind s.annot? with
  | none => exact .inl ⟨rfl, answers_ok _⟩
  | some annot =>
    obtain ⟨name, kind, module?⟩ := annot
    cases kind with
    | structType requiresPod bound =>
      cases bound with
      | none => exact .inl ⟨rfl, answers_ok _⟩
      | some id => exact .inr ⟨id, rfl, rfl⟩
    | _ => exact .inl ⟨rfl, answers_ok _⟩

end Types

section Align

variable {ofStruct : StructId → Except Fault Nat}

theorem alignWith_eq (s : Store) (ofStruct : StructId → Except Fault Nat) (t : Ty) :
    s.alignWith ofStruct t =
      match t.base.align? with
      | some align => .ok align
      | none => do
        match t.base with
        | .struct =>
          match s.liveStruct? t with
          | some id => ofStruct id
          | none => return 1
        | .handle => s.annotMeasure t (fun _ align _ => align) ofStruct 1
        | .tuple => return maxAlign (← s.alignsWith ofStruct t.args)
        | .variant => return max (maxAlign (← s.alignsWith ofStruct t.args)) 4
        | _ => return 1 := by
  obtain ⟨⟩ := t
  rfl

theorem answers_alignsWith {ts : List Ty} :
    Answers (s.alignsWith ofStruct ts) ↔ ∀ t ∈ ts, Answers (s.alignWith ofStruct t) := by
  induction ts with
  | nil => exact iff_of_true (answers_ok _) fun _ ht => absurd ht List.not_mem_nil
  | cons t ts ih =>
    rw [alignsWith, List.forall_mem_cons, ← ih, answers_bind]
    constructor
    · rintro ⟨align, h, hrest⟩
      exact ⟨⟨align, h⟩, (answers_bind_of fun _ => answers_ok _).1 hrest⟩
    · rintro ⟨⟨align, h⟩, hrest⟩
      exact ⟨align, h, (answers_bind_of fun _ => answers_ok _).2 hrest⟩

/-- The alignment of a type asks those of the structures that it holds, and nothing else that may
fail. -/
theorem answers_alignWith (t : Ty) :
    Answers (s.alignWith ofStruct t) ↔ ∀ id ∈ s.valueStructs t, Answers (ofStruct id) := by
  induction t using Ty.induction_args with
  | step t ih =>
    have parts : Answers (s.alignsWith ofStruct t.args) ↔
        ∀ id ∈ s.valueStructsList t.args, Answers (ofStruct id) := by
      rw [answers_alignsWith, forall_mem_valueStructsList]
      exact forall₂_congr ih
    rw [alignWith_eq, valueStructs_eq]
    cases t.base
    case struct =>
      cases s.liveStruct? t with
      | none => exact iff_of_true (answers_ok _) fun _ hid => absurd hid List.not_mem_nil
      | some id => simp [BaseType.align?]
    case handle =>
      obtain ⟨bound, h⟩ | ⟨id, bound, h⟩ :=
        s.annotMeasure_cases t (fun _ align _ => align) ofStruct 1
      · rw [bound]
        exact iff_of_true h fun _ hid => absurd hid List.not_mem_nil
      · simp [bound, h, BaseType.align?]
    case tuple => exact (answers_bind_of fun _ => answers_ok _).trans parts
    case variant => exact (answers_bind_of fun _ => answers_ok _).trans parts
    all_goals exact iff_of_true (answers_ok _) fun _ hid => absurd hid List.not_mem_nil

end Align

section Copy

variable {ofStruct : CopyQuery → StructId → Except Fault Bool} {q : CopyQuery}

theorem base_of_base?_eq_none {base : BaseType} (hq : q ≠ .clone) (h : q.base? base = none) :
    base = .struct ∨ base = .handle ∨ base = .tuple ∨ base = .variant := by
  cases q <;> cases base <;> simp_all [CopyQuery.base?]

theorem copyWith_eq (s : Store) (ofStruct : CopyQuery → StructId → Except Fault Bool)
    (q : CopyQuery) (t : Ty) : s.copyWith ofStruct q t =
      match q.base? t.base with
      | some answer => .ok answer
      | none =>
        match t.base with
        | .struct =>
          match s.liveStruct? t with
          | some id => ofStruct q id
          | none => .ok false
        | .handle => s.annotMeasure t (fun _ _ pod => pod) (ofStruct .pod) false
        | .array | .table => do
          if ← s.copyOptionWith ofStruct q t.first then
            if ← s.copyOptionWith ofStruct q t.second then s.copyAllWith ofStruct q t.args
            else return false
          else return false
        | _ => s.copyAllWith ofStruct q t.args := by
  obtain ⟨⟩ := t
  rfl

theorem answers_copyAllWith {ts : List Ty} (h : ∀ t ∈ ts, Answers (s.copyWith ofStruct q t)) :
    Answers (s.copyAllWith ofStruct q ts) := by
  induction ts with
  | nil => exact answers_ok true
  | cons t ts ih =>
    obtain ⟨⟨answer, ht⟩, hts⟩ := List.forall_mem_cons.1 h
    refine answers_bind.2 ⟨answer, ht, ?_⟩
    cases answer with
    | false => exact answers_ok false
    | true => exact ih hts

/-- Whether values of a type may be copied or moved asks no structures but those that it holds. -/
theorem answers_copyWith {t : Ty} (hq : q ≠ .clone)
    (h : ∀ id ∈ s.valueStructs t, Answers (ofStruct q id) ∧ Answers (ofStruct .pod id)) :
    Answers (s.copyWith ofStruct q t) := by
  induction t using Ty.induction_args with
  | step t ih =>
    have parts (hargs : ∀ id ∈ s.valueStructsList t.args,
        Answers (ofStruct q id) ∧ Answers (ofStruct .pod id)) :
        Answers (s.copyAllWith ofStruct q t.args) :=
      answers_copyAllWith fun u hu => ih u hu (forall_mem_valueStructsList.1 hargs u hu)
    rw [valueStructs_eq] at h
    rw [copyWith_eq]
    split
    · exact answers_ok _
    · rename_i asked
      rcases base_of_base?_eq_none hq asked with base | base | base | base <;>
        rw [base] at h ⊢ <;> dsimp only at h ⊢
      · cases live : s.liveStruct? t with
        | none => exact answers_ok false
        | some id => exact (h id (by simp [live])).1
      · obtain ⟨-, answer⟩ | ⟨id, bound, eq⟩ :=
          s.annotMeasure_cases t (fun _ _ pod => pod) (ofStruct .pod) false
        · exact answer
        · rw [eq]
          exact (h id (by simp [bound])).2
      · exact parts h
      · exact parts h

end Copy

section Size

variable {ofStruct : StructId → Except Fault Nat}

def elementSizeWith (s : Store) (ofStruct : StructId → Except Fault Nat) (t : Ty) :
    Except Fault Nat :=
  match t.base.size? with
  | some size => .ok size
  | none =>
    match t.base with
    | .struct =>
      match s.liveStruct? t with
      | some id => ofStruct id
      | none => .ok 0
    | .handle => s.annotMeasure t (fun size _ _ => size) ofStruct 0
    | .tuple => do
      let size ← s.tupleSizeWith ofStruct 0 t.args
      alignUp size (← s.typeAlign t)
    | .variant => do
      let payload := (← s.sizesWith ofStruct t.args).max?.getD 0
      let align ← s.typeAlign t
      let start ← alignUp 4 align
      alignUp (← addSizes start payload) align
    | _ => .ok 0

theorem sizeWith_eq (s : Store) (ofStruct : StructId → Except Fault Nat) (t : Ty) :
    s.sizeWith ofStruct t = s.elementSizeWith ofStruct t >>= fun element =>
      dimsSize element t.dims := by
  obtain ⟨base⟩ := t
  unfold sizeWith elementSizeWith
  cases base
  case struct =>
    dsimp only [BaseType.size?]
    generalize s.liveStruct? _ = live
    cases live <;> rfl
  case tuple => simp only [BaseType.size?, bind_assoc]
  case variant => simp only [BaseType.size?, bind_assoc]
  all_goals rfl

theorem halts_tupleSizeWith {ts : List Ty} (size : Nat)
    (h : ∀ t ∈ ts, Halts (s.sizeWith ofStruct t) ∧ Answers (s.typeAlign t)) :
    Halts (s.tupleSizeWith ofStruct size ts) := by
  induction ts generalizing size with
  | nil => exact halts_ok size
  | cons t ts ih =>
    obtain ⟨⟨ht, align⟩, hts⟩ := List.forall_mem_cons.1 h
    exact align.halts.bind fun _ => (halts_alignUp _ _).bind fun _ => ht.bind fun _ =>
      (halts_addSizes _ _).bind fun stop => ih stop hts

theorem halts_sizesWith {ts : List Ty} (h : ∀ t ∈ ts, Halts (s.sizeWith ofStruct t)) :
    Halts (s.sizesWith ofStruct ts) := by
  induction ts with
  | nil => exact halts_ok []
  | cons t ts ih =>
    obtain ⟨ht, hts⟩ := List.forall_mem_cons.1 h
    exact ht.bind fun _ => (ih hts).bind fun _ => halts_ok _

/-- The size of a type asks sizes and alignments of the structures that it holds, and nothing else
that may go on without end. -/
theorem halts_sizeWith {t : Ty}
    (h : ∀ id ∈ s.valueStructs t, Halts (ofStruct id) ∧ Answers (s.structAlign id)) :
    Halts (s.sizeWith ofStruct t) := by
  induction t using Ty.induction_args with
  | step t ih =>
    have align : Answers (s.typeAlign t) := answers_alignWith t |>.2 fun id hid => (h id hid).2
    have parts (hargs : ∀ id ∈ s.valueStructsList t.args,
        Halts (ofStruct id) ∧ Answers (s.structAlign id)) :
        ∀ u ∈ t.args, Halts (s.sizeWith ofStruct u) ∧ Answers (s.typeAlign u) := fun u hu =>
      have hu' := forall_mem_valueStructsList.1 hargs u hu
      ⟨ih u hu hu', answers_alignWith u |>.2 fun id hid => (hu' id hid).2⟩
    rw [sizeWith_eq]
    refine Halts.bind ?_ fun _ => halts_dimsSize _ _
    rw [valueStructs_eq] at h
    unfold elementSizeWith
    cases base : t.base
    case struct =>
      rw [base] at h
      cases live : s.liveStruct? t with
      | none => exact halts_ok 0
      | some id => exact (h id (by simp [live])).1
    case handle =>
      rw [base] at h
      obtain ⟨-, answer⟩ | ⟨id, bound, eq⟩ :=
        s.annotMeasure_cases t (fun size _ _ => size) ofStruct 0
      · exact answer.halts
      · exact eq ▸ (h id (by simp [bound])).1
    case tuple =>
      rw [base] at h
      exact (halts_tupleSizeWith 0 (parts h)).bind fun _ => align.halts.bind fun _ =>
        halts_alignUp _ _
    case variant =>
      rw [base] at h
      have sizes := halts_sizesWith fun u hu => (parts h u hu).1
      exact sizes.bind fun _ => align.halts.bind fun _ => (halts_alignUp _ _).bind fun _ =>
        (halts_addSizes _ _).bind fun _ => halts_alignUp _ _
    all_goals exact halts_ok _

end Size

section Structures

/-- A structure has a field that holds another by value. -/
def Holds (s : Store) (a b : StructId) : Prop :=
  ∃ x, s.struct? a = some x ∧ ∃ f ∈ x.fields, b ∈ s.valueStructs f.type

/-- With the native layout of a plain parent, a field that is not the parent's comes right after one
that is. -/
def StartsBehind (s : Store) (a parent : StructId) : Prop :=
  ∃ x, s.struct? a = some x ∧ x.cppLayout = true ∧ x.cppLayoutPod = true ∧
    ∃ before f g after, x.fields = before ++ f :: g :: after ∧
      s.fieldOwner? x f.name = some (.parent parent) ∧
      s.fieldOwner? x g.name ≠ some (.parent parent)

/-- The size of a structure asks that of another. -/
def Measures (s : Store) (a b : StructId) : Prop := s.Holds a b ∨ s.StartsBehind a b

variable {q : CopyQuery}

theorem answers_structAlignIn :
    Answers (s.structAlignIn steps a) ↔ WalksEnd s.Holds steps a := by
  induction steps generalizing a with
  | zero => exact iff_of_false (fun ⟨_, h⟩ => by cases h) id
  | succ steps ih =>
    unfold structAlignIn
    cases hx : s.struct? a with
    | none =>
      refine iff_of_true (answers_ok 1) ?_
      rintro b ⟨x, hx', -⟩
      rw [hx] at hx'
      cases hx'
    | some x =>
      have asked : Answers (s.alignsWith (s.structAlignIn steps) (x.fields.map (·.type))) ↔
          ∀ f ∈ x.fields, ∀ b ∈ s.valueStructs f.type, WalksEnd s.Holds steps b := by
        rw [answers_alignsWith, List.forall_mem_map]
        exact forall₂_congr fun f _ =>
          (answers_alignWith f.type).trans (forall₂_congr fun _ _ => ih)
      refine ((answers_bind_of fun _ => answers_ok _).trans asked).trans ⟨?_, ?_⟩
      · rintro h b ⟨y, hy, f, hf, hb⟩
        rw [hx] at hy
        cases hy
        exact h f hf b hb
      · exact fun h f hf b hb => h b ⟨x, hx, f, hf, hb⟩

theorem answers_structCopyIn (hq : q ≠ .clone) (h : WalksEnd s.Holds steps a) :
    Answers (s.structCopyIn steps q a) := by
  induction steps generalizing a q with
  | zero => cases h
  | succ steps ih =>
    unfold structCopyIn
    cases hx : s.struct? a with
    | none => exact answers_ok false
    | some x =>
      refine answers_copyAllWith (List.forall_mem_map.2 fun f hf => ?_)
      refine answers_copyWith hq fun b hb => ?_
      have hb := h b ⟨x, hx, f, hf, hb⟩
      exact ⟨ih hq hb, ih (by decide) hb⟩

theorem not_loops_holds_iff : ¬ Loops s.Holds a ↔ Answers (s.structAlign a) := by
  have starts (a b : StructId) (h : s.Holds a b) : a ∈ s.structs.ids := by
    obtain ⟨x, hx, -⟩ := h
    exact Table.mem_ids_of_get? hx
  rw [structAlign, answers_structAlignIn, structSteps, ← Table.length_ids]
  exact ⟨walksEnd_of_not_loops starts, fun h loops => loops.not_walksEnd _ h⟩

/-- The alignment of a type has an answer exactly if no structure that the type holds comes to one
that holds itself. -/
theorem answers_typeAlign : Answers (s.typeAlign t) ↔ ∀ id ∈ s.valueStructs t, ¬ Loops s.Holds id :=
  answers_alignWith t |>.trans (forall₂_congr fun _ _ => not_loops_holds_iff.symm)

/-- No number of steps is enough for the alignment of a type that holds a structure that holds
itself. -/
theorem not_answers_alignWith (hid : id ∈ s.valueStructs t) (cycle : TransGen s.Holds id id)
    (steps : Nat) : ¬ Answers (s.alignWith (s.structAlignIn steps) t) := fun answers =>
  Loops.not_walksEnd ⟨id, .refl, cycle⟩ steps
    (answers_structAlignIn.1 (answers_alignWith t |>.1 answers id hid))

theorem forall_answers_typeAlign :
    (∀ t, Answers (s.typeAlign t)) ↔ ∀ id, ¬ TransGen s.Holds id id := by
  constructor
  · intro answers id cycle
    obtain ⟨b, ⟨x, hx, -⟩, -⟩ := TransGen.head'_iff.1 cycle
    have held : id ∈ s.valueStructs (.struct id) := by
      rw [valueStructs_struct hx]
      exact List.mem_singleton_self id
    exact not_answers_alignWith held cycle _ (answers (.struct id))
  · exact fun acyclic t => answers_typeAlign.2 fun _ _ => not_loops acyclic

theorem answers_typeCopy (hq : q ≠ .clone) (h : ∀ id ∈ s.valueStructs t, ¬ Loops s.Holds id) :
    Answers (s.typeCopy q t) := by
  refine answers_copyWith hq fun id hid => ?_
  have ends : WalksEnd s.Holds s.structSteps id :=
    answers_structAlignIn.1 (not_loops_holds_iff.1 (h id hid))
  exact ⟨answers_structCopyIn hq ends, answers_structCopyIn (by decide) ends⟩

theorem halts_fieldBase {x : Struct} {ofStruct : StructId → Except Fault Nat} {size : Nat}
    {previous owner : Option FieldOwner}
    (h : x.cppLayout = true → x.cppLayoutPod = true → ∀ parent, previous = some (.parent parent) →
      owner ≠ some (.parent parent) → Halts (ofStruct parent)) :
    Halts (fieldBase x ofStruct size previous owner) := by
  unfold fieldBase
  split
  · rename_i changes
    simp only [Bool.and_eq_true, bne_iff_ne] at changes
    obtain ⟨⟨cpp, apart⟩, pod⟩ := changes
    split
    · rename_i parent
      exact h cpp pod parent rfl apart
    · exact halts_ok size
  · exact halts_ok size

/-- The end of the last of some fields, those behind `before`. An owner that is remembered is that of
the last field before them. -/
theorem halts_fieldsEnd {x : Struct} {ofStruct : StructId → Except Fault Nat} {size : Nat}
    {previous : Option FieldOwner} {before fields : List Field}
    (split : x.fields = before ++ fields)
    (last : x.cppLayout = true → ∀ parent, previous = some (.parent parent) →
      ∃ init f, before = init ++ [f] ∧ s.fieldOwner? x f.name = some (.parent parent))
    (types : ∀ f ∈ fields, Halts (s.sizeWith ofStruct f.type) ∧ Answers (s.typeAlign f.type))
    (parents : x.cppLayout = true → x.cppLayoutPod = true → ∀ parent before f g after,
      x.fields = before ++ f :: g :: after →
      s.fieldOwner? x f.name = some (.parent parent) →
      s.fieldOwner? x g.name ≠ some (.parent parent) → Halts (ofStruct parent)) :
    Halts (s.fieldsEnd x ofStruct size previous fields) := by
  induction fields generalizing size previous before with
  | nil => exact halts_ok size
  | cons g after ih =>
    obtain ⟨⟨ht, align⟩, types⟩ := List.forall_mem_cons.1 types
    refine (halts_fieldBase ?_).bind fun _ => align.halts.bind fun _ =>
      (halts_alignUp _ _).bind fun _ => ht.bind fun _ => (halts_addSizes _ _).bind fun _ => ?_
    · intro cpp pod parent hprevious apart
      obtain ⟨init, f, rfl, owner⟩ := last cpp parent hprevious
      rw [if_pos cpp] at apart
      exact parents cpp pod parent init f g after (by simpa using split) owner apart
    · have split' : x.fields = before ++ [g] ++ after := by simpa using split
      refine ih split' (fun cpp parent owner => ?_) types
      rw [if_pos cpp] at owner
      exact ⟨before, g, rfl, owner⟩

/-- While walks along the structures that sizes ask end, so do those that alignments ask. -/
theorem answers_structAlign_of_measures (h : WalksEnd s.Measures steps a) :
    Answers (s.structAlign a) :=
  not_loops_holds_iff.1 fun loops =>
    loops.not_walksEnd steps (h.mono fun _ _ holds => .inl holds)

theorem halts_structSizeIn (h : WalksEnd s.Measures steps a) : Halts (s.structSizeIn steps a) := by
  induction steps generalizing a with
  | zero => cases h
  | succ steps ih =>
    have align := answers_structAlign_of_measures h
    unfold structSizeIn
    cases hx : s.struct? a with
    | none => exact halts_ok 0
    | some x =>
      refine Halts.bind ?_ fun _ => align.halts.bind fun _ => halts_alignUp _ _
      refine halts_fieldsEnd (List.nil_append x.fields).symm (fun _ _ h => by cases h) ?_ ?_
      · intro f hf
        have held (b : StructId) (hb : b ∈ s.valueStructs f.type) : WalksEnd s.Measures steps b :=
          h b (.inl ⟨x, hx, f, hf, hb⟩)
        have align (b : StructId) (hb : b ∈ s.valueStructs f.type) : Answers (s.structAlign b) :=
          answers_structAlign_of_measures (held b hb)
        exact ⟨halts_sizeWith fun b hb => ⟨ih (held b hb), align b hb⟩,
          answers_alignWith f.type |>.2 align⟩
      · intro cpp pod parent before f g after split owner apart
        exact ih (h parent (.inr ⟨x, hx, cpp, pod, before, f, g, after, split, owner, apart⟩))

theorem walksEnd_measures (h : ¬ Loops s.Measures a) : WalksEnd s.Measures s.structSteps a := by
  have starts (a b : StructId) (h : s.Measures a b) : a ∈ s.structs.ids := by
    obtain ⟨x, hx, -⟩ | ⟨x, hx, -⟩ := h <;> exact Table.mem_ids_of_get? hx
  rw [structSteps, ← Table.length_ids]
  exact walksEnd_of_not_loops starts h

/-- The size of a type does not go on without end unless a structure that the type holds comes to
one that sizes ask again and again. -/
theorem halts_typeSize (h : ∀ id ∈ s.valueStructs t, ¬ Loops s.Measures id) :
    Halts (s.typeSize t) := by
  have ends (id : StructId) (hid : id ∈ s.valueStructs t) :
      WalksEnd s.Measures s.structSteps id := walksEnd_measures (h id hid)
  exact halts_sizeWith fun id hid =>
    ⟨halts_structSizeIn (ends id hid), answers_structAlign_of_measures (ends id hid)⟩

/-- No structure holds itself here, yet the size of the child asks that of the parent, which got a
field of the child's type. -/
example :
    let int (name : String) : Field := { name, type := .ofBase .int }
    let s : Store := { structs := ⟨#[
      some { name := "P", fields := [int "x", { name := "d", type := .struct ⟨1⟩ }] },
      some { name := "D", parent? := some ⟨0⟩, cppLayout := true, cppLayoutPod := true,
             fields := [int "x", int "y"] }]⟩ }
    s.structAlign ⟨1⟩ = .ok 4 ∧ s.structSize ⟨1⟩ = .error .endless := by
  decide +kernel

end Structures

end Store

end Frontend
