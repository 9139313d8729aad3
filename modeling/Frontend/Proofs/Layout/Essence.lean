import Frontend.Proofs.Layout.Exact

/-!
# What counts of a type

Two types are the same if they agree in what counts of them: base, qualifiers, dimensions, nested
types, and the link or the name that the base type goes by. Whatever else a type carries is erased
from its essence, so sameness is an equality, and layouts see no more than the essence.
-/

namespace Frontend

namespace Ty

/-- What counts of a type, apart from its nested types. -/
def shell (t : Ty) : Ty where
  base := t.base
  argNames := if t.base = .variant then t.argNames else []
  dims := t.dims
  aliasName := if t.base = .aliased then t.aliasName else ""
  isConst := t.isConst
  isRefFlag := t.isRefFlag
  dropsConst := t.dropsConst
  dropsRef := t.dropsRef
  dropsDims := t.dropsDims
  isTemporary := t.isTemporary
  isImplicit := t.isImplicit
  struct? := if t.base = .struct then t.struct? else none
  enum? := if t.base.isEnum then t.enum? else none
  annot? := if t.base = .handle then t.annot? else none

mutual

def essence : Ty → Ty
  | t@{ first, second, args, .. } =>
    { t.shell with
      first := essenceOption first, second := essenceOption second, args := essenceList args }

def essenceOption : Option Ty → Option Ty
  | none => none
  | some t => some (essence t)

def essenceList : List Ty → List Ty
  | [] => []
  | t :: ts => essence t :: essenceList ts

end

variable {t u : Ty}

theorem essenceList_eq (ts : List Ty) : essenceList ts = ts.map essence := by
  induction ts with
  | nil => rfl
  | cons t ts ih => rw [essenceList, ih, List.map_cons]

theorem essence_eq (t : Ty) : t.essence =
    { t.shell with
      first := essenceOption t.first, second := essenceOption t.second
      args := t.args.map essence } := by
  obtain ⟨⟩ := t
  rw [← essenceList_eq]
  rfl

@[simp] theorem base_essence (t : Ty) : t.essence.base = t.base := by rw [essence_eq, shell]

@[simp] theorem dims_essence (t : Ty) : t.essence.dims = t.dims := by rw [essence_eq, shell]

@[simp] theorem args_essence (t : Ty) : t.essence.args = t.args.map essence := by rw [essence_eq]

theorem struct?_essence (h : t.base = .struct) : t.essence.struct? = t.struct? := by
  rw [essence_eq, shell, if_pos h]

theorem annot?_essence (h : t.base = .handle) : t.essence.annot? = t.annot? := by
  rw [essence_eq, shell, if_pos h]

theorem sameShallow_full_iff : sameShallow .full t u = true ↔ t.shell = u.shell := by
  obtain ⟨base⟩ := t
  obtain ⟨base'⟩ := u
  by_cases same : base = base'
  · subst same
    cases base <;> simp [sameShallow, shell, Comparison.full, BaseType.isEnum] <;> tauto
  · simp [sameShallow, shell, same]

/-- Equal essences are equal shells and equal essences of the nested types. -/
theorem essence_eq_iff : t.essence = u.essence ↔ t.shell = u.shell ∧
    essenceOption t.first = essenceOption u.first ∧
    essenceOption t.second = essenceOption u.second ∧ essenceList t.args = essenceList u.args := by
  rw [essence_eq, essence_eq, essenceList_eq, essenceList_eq]
  simp only [shell, mk.injEq]
  tauto

mutual

theorem same_full_iff : (t u : Ty) → (t.same .full u = true ↔ t.essence = u.essence)
  | { first, second, args, .. }, u => by
    rw [essence_eq_iff, same, Bool.and_eq_true, Bool.and_eq_true, Bool.and_eq_true,
      sameShallow_full_iff, sameOption_iff first, sameOption_iff second, sameList_iff args]
    tauto

theorem sameOption_iff : (t u : Option Ty) →
    (sameOption t u = true ↔ essenceOption t = essenceOption u)
  | none, none => by simp [sameOption]
  | some t, some u => by simp [sameOption, essenceOption, same_full_iff t u]
  | none, some _ => by simp [sameOption, essenceOption]
  | some _, none => by simp [sameOption, essenceOption]

theorem sameList_iff : (ts us : List Ty) →
    (sameList ts us = true ↔ essenceList ts = essenceList us)
  | [], [] => by simp [sameList]
  | t :: ts, u :: us => by
    simp [sameList, essenceList, same_full_iff t u, sameList_iff ts us]
  | [], _ :: _ => by simp [sameList, essenceList]
  | _ :: _, [] => by simp [sameList, essenceList]

end

/-- Types are the same exactly if their essences are equal. -/
theorem sameType_iff : t.sameType u = true ↔ t.essence = u.essence := same_full_iff t u

end Ty

namespace Store

variable {s : Store} {f : StructId → Except Fault Nat} {g : StructId → Nat}

theorem liveStruct?_essence {t : Ty} (h : t.base = .struct) :
    s.liveStruct? t.essence = s.liveStruct? t := by
  rw [liveStruct?, liveStruct?, Ty.struct?_essence h]

theorem annotExtent_essence {t : Ty} (h : t.base = .handle) :
    s.annotExtent g t.essence = s.annotExtent g t := by
  rw [annotExtent, annotExtent, boundStruct?, boundStruct?, ownMeasure, ownMeasure,
    Ty.annot?_essence h]

theorem alignsWith_map {e : Ty → Ty} {ts : List Ty}
    (h : ∀ t ∈ ts, s.alignWith f (e t) = s.alignWith f t) :
    s.alignsWith f (ts.map e) = s.alignsWith f ts := by
  induction ts with
  | nil => rfl
  | cons t ts ih =>
    obtain ⟨ht, hts⟩ := List.forall_mem_cons.1 h
    rw [List.map_cons, alignsWith, alignsWith, ht, ih hts]

theorem alignWith_essence (t : Ty) : s.alignWith f t.essence = s.alignWith f t := by
  induction t using Ty.induction_args with
  | step t ih =>
    rw [alignWith_eq, alignWith_eq, Ty.base_essence, Ty.args_essence, alignsWith_map ih]
    cases base : t.base
    case struct => rw [liveStruct?_essence base]
    case handle => rw [annotMeasure, annotMeasure, Ty.annot?_essence base]
    all_goals rfl

theorem typeAlign_essence (t : Ty) : s.typeAlign t.essence = s.typeAlign t := alignWith_essence t

theorem alignOf_essence (t : Ty) : s.alignOf t.essence = s.alignOf t := by
  rw [alignOf, alignOf, typeAlign_essence]

theorem tupleSizeWith_map {e : Ty → Ty} {ts : List Ty} (size : Nat)
    (halign : ∀ t, s.typeAlign (e t) = s.typeAlign t)
    (h : ∀ t ∈ ts, s.sizeWith f (e t) = s.sizeWith f t) :
    s.tupleSizeWith f size (ts.map e) = s.tupleSizeWith f size ts := by
  induction ts generalizing size with
  | nil => rfl
  | cons t ts ih =>
    obtain ⟨ht, hts⟩ := List.forall_mem_cons.1 h
    simp only [List.map_cons, tupleSizeWith, halign, ht, ih _ hts]

theorem sizesWith_map {e : Ty → Ty} {ts : List Ty}
    (h : ∀ t ∈ ts, s.sizeWith f (e t) = s.sizeWith f t) :
    s.sizesWith f (ts.map e) = s.sizesWith f ts := by
  induction ts with
  | nil => rfl
  | cons t ts ih =>
    obtain ⟨ht, hts⟩ := List.forall_mem_cons.1 h
    rw [List.map_cons, sizesWith, sizesWith, ht, ih hts]

theorem sizeWith_essence (t : Ty) : s.sizeWith f t.essence = s.sizeWith f t := by
  induction t using Ty.induction_args with
  | step t ih =>
    have element : s.elementSizeWith f t.essence = s.elementSizeWith f t := by
      rw [elementSizeWith, elementSizeWith, Ty.base_essence, Ty.args_essence, typeAlign_essence,
        tupleSizeWith_map 0 typeAlign_essence ih, sizesWith_map ih]
      cases base : t.base
      case struct => rw [liveStruct?_essence base]
      case handle => rw [annotMeasure, annotMeasure, Ty.annot?_essence base]
      all_goals rfl
    rw [sizeWith_eq, sizeWith_eq, element, Ty.dims_essence]

theorem extentWith_essence (t : Ty) : s.extentWith g t.essence = s.extentWith g t := by
  induction t using Ty.induction_args with
  | step t ih =>
    have measures : s.measuresWith g (t.args.map Ty.essence) = s.measuresWith g t.args := by
      rw [measuresWith_eq, measuresWith_eq, List.map_map]
      refine List.map_congr_left fun u hu => ?_
      rw [Function.comp_apply, ih u hu, alignOf_essence]
    have element : s.elementExtentWith g t.essence = s.elementExtentWith g t := by
      rw [elementExtentWith_eq, elementExtentWith_eq, Ty.base_essence, Ty.args_essence, measures,
        alignOf_essence]
      cases base : t.base
      case struct => rw [liveStruct?_essence base]
      case handle => rw [annotExtent_essence base]
      all_goals rfl
    rw [extentWith, extentWith, element, Ty.dims_essence]

theorem measure_essence (t : Ty) : s.measure t.essence = s.measure t := by
  rw [measure, measure, extent, extentWith_essence, alignOf_essence]
  rfl

end Store

end Frontend
