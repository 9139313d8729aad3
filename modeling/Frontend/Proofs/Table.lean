import Frontend.Proofs.Traversal.Weight
import Frontend.Table

/-!
# Changes of one object

What tables give after changes of an object, totals over the objects of a table, and tables that
agree object by object.
-/

namespace Frontend.Table

variable {kind : ObjectKind} {α : Type}

theorem ext_get? {t t' : Table kind α} (hs : t.slots.size = t'.slots.size)
    (h : ∀ id, t.get? id = t'.get? id) : t = t' := by
  obtain ⟨slots⟩ := t
  obtain ⟨slots'⟩ := t'
  congr 1
  refine Array.ext hs fun i hi hi' => ?_
  have := h ⟨i⟩
  simpa [get?, Array.getElem?_eq_getElem hi, Array.getElem?_eq_getElem hi'] using this

@[simp] theorem size_modify (t : Table kind α) (id : Id kind) (f : α → α) :
    (t.modify id f).slots.size = t.slots.size := by
  simp [modify]

theorem get?_modify (t : Table kind α) (id other : Id kind) (f : α → α) :
    (t.modify id f).get? other = if other = id then (t.get? other).map f else t.get? other := by
  by_cases h : other = id
  · rw [if_pos h, h, get?_modify_self]
  · rw [if_neg h, get?_modify_of_ne t f h]

theorem modify_modify (t : Table kind α) (id : Id kind) (f g : α → α) :
    (t.modify id f).modify id g = t.modify id (g ∘ f) := by
  refine ext_get? (by simp) fun other => ?_
  simp only [get?_modify]
  split <;> simp

theorem modify_eq_self {t : Table kind α} {id : Id kind} {f : α → α}
    (h : ∀ a, t.get? id = some a → f a = a) : t.modify id f = t := by
  refine ext_get? (by simp) fun other => ?_
  rw [get?_modify]
  split
  · rename_i same
    subst same
    cases ha : t.get? other with
    | none => rfl
    | some a => rw [Option.map_some, h a ha]
  · rfl

theorem get?_eq_none_of_size_le {t : Table kind α} {id : Id kind} (h : t.slots.size ≤ id.index) :
    t.get? id = none := by
  simp [get?, Array.getElem?_eq_none h]

theorem lt_size_of_get? {t : Table kind α} {id : Id kind} {a : α} (h : t.get? id = some a) :
    id.index < t.slots.size := by
  by_contra hn
  rw [get?_eq_none_of_size_le (Nat.le_of_not_lt hn)] at h
  cases h

/-- The ids that were handed out, those of objects that are gone included. -/
def ids (t : Table kind α) : List (Id kind) := (List.range t.slots.size).map Id.mk

@[simp] theorem length_ids (t : Table kind α) : t.ids.length = t.slots.size := by simp [ids]

theorem mem_ids_of_get? {t : Table kind α} {id : Id kind} {a : α} (h : t.get? id = some a) :
    id ∈ t.ids :=
  List.mem_map.2 ⟨id.index, List.mem_range.2 (lt_size_of_get? h), rfl⟩

/-- The objects that exist are those that look up to something. -/
theorem mem_toList {t : Table kind α} {id : Id kind} {a : α} :
    (id, a) ∈ t.toList ↔ t.get? id = some a := by
  obtain ⟨i⟩ := id
  simp only [toList, List.mem_filterMap, List.mem_zipIdx_iff_getElem?, Option.map_eq_some_iff,
    Prod.mk.injEq, Id.mk.injEq, get?, Option.join_eq_some_iff, Prod.exists]
  constructor
  · rintro ⟨o, j, hj, b, rfl, rfl, rfl⟩
    simpa using hj
  · intro h
    exact ⟨some a, i, by simpa using h, a, rfl, rfl, rfl⟩

section Listing

private theorem filterMap_slots (l : List (Option α)) (i : Nat) :
    (l.zipIdx i).filterMap (fun s => s.1.map fun a => ((⟨s.2⟩ : Id kind), a)) =
      (List.range' i l.length).filterMap fun j =>
        (l[j - i]?.join).map fun a => ((⟨j⟩ : Id kind), a) := by
  induction l generalizing i with
  | nil => rfl
  | cons o l ih =>
    have tail : (List.range' (i + 1) l.length).filterMap (fun j =>
          ((o :: l)[j - i]?.join).map fun a => ((⟨j⟩ : Id kind), a)) =
        (List.range' (i + 1) l.length).filterMap fun j =>
          (l[j - (i + 1)]?.join).map fun a => ((⟨j⟩ : Id kind), a) := by
      refine List.filterMap_congr fun j hj => ?_
      obtain ⟨k, hk, rfl⟩ := List.mem_range'.1 hj
      have hk : i + 1 + 1 * k - i = k + 1 := by omega
      have hk' : i + 1 + 1 * k - (i + 1) = k := by omega
      rw [hk, hk', List.getElem?_cons_succ]
    rw [List.zipIdx_cons, List.length_cons, List.range'_succ, List.filterMap_cons,
      List.filterMap_cons, tail, ih]
    simp

/-- The objects in the order of their ids. -/
theorem toList_eq (t : Table kind α) : t.toList = (List.range t.slots.size).filterMap fun i =>
    (t.get? ⟨i⟩).map fun a => (⟨i⟩, a) := by
  unfold toList
  rw [filterMap_slots, List.range_eq_range', Array.length_toList]
  refine List.filterMap_congr fun i _ => ?_
  simp [get?]

theorem toList_restrict (t : Table kind α) (p : Id kind → Bool) :
    (t.restrict p).toList = t.toList.filter fun x => p x.1 := by
  have size : (t.restrict p).slots.size = t.slots.size := by simp [restrict]
  rw [toList_eq, toList_eq, size, List.filter_filterMap]
  refine List.filterMap_congr fun i _ => ?_
  rw [get?_restrict]
  cases t.get? ⟨i⟩ <;> by_cases h : p ⟨i⟩ <;> simp [Option.filter, h]

end Listing

section Totals

private theorem total_slots (f : α → Nat) (l : List (Option α)) (i : Nat) :
    total (fun x : Id kind × α => f x.2)
      ((l.zipIdx i).filterMap fun s => s.1.map fun a => (⟨s.2⟩, a)) =
    total (fun o => (o.map f).getD 0) l := by
  induction l generalizing i with
  | nil => rfl
  | cons o l ih => cases o <;> simp [List.zipIdx_cons, ih]

theorem total_toList (f : α → Nat) (t : Table kind α) :
    total (fun x => f x.2) t.toList = total (fun o => (o.map f).getD 0) t.slots.toList :=
  total_slots f t.slots.toList 0

private theorem total_modify (f : α → Nat) (g : α → α) (l : List (Option α)) (i : Nat) :
    total (fun o => (o.map f).getD 0) (l.modify i (·.map g)) + (l[i]?.join.map f).getD 0 =
      total (fun o => (o.map f).getD 0) l + (l[i]?.join.map (f ∘ g)).getD 0 := by
  induction l generalizing i with
  | nil => simp
  | cons o l ih =>
    cases i with
    | zero =>
      simp only [List.modify_zero_cons, total_cons, List.getElem?_cons_zero, Option.join_some,
        Option.map_map]
      omega
    | succ i =>
      have := ih i
      simp only [List.modify_succ_cons, total_cons, List.getElem?_cons_succ]
      omega

/-- What a change of one object adds to a total and takes from it. -/
theorem total_toList_modify (f : α → Nat) (t : Table kind α) (id : Id kind) (g : α → α) :
    total (fun x => f x.2) (t.modify id g).toList + ((t.get? id).map f).getD 0 =
      total (fun x => f x.2) t.toList + ((t.get? id).map (f ∘ g)).getD 0 := by
  rw [total_toList, total_toList]
  simpa [modify, get?, Array.toList_modify] using total_modify f g t.slots.toList id.index

theorem count_eq_length (t : Table kind α) : t.count = t.toList.length := by
  have slots (l : List (Option α)) (n : Nat) :
      l.foldl (fun n a => if a.isSome then n + 1 else n) n =
        n + total (fun o => (o.map fun _ => 1).getD 0) l := by
    induction l generalizing n with
    | nil => rfl
    | cons o l ih =>
      rw [List.foldl_cons, ih, total_cons]
      cases o with
      | none => simp
      | some a => exact Nat.add_assoc n 1 _
  rw [← total_one, total_toList (fun _ => 1), count, ← Array.foldl_toList, slots, Nat.zero_add]

end Totals

theorem rel_refl {T : α → α → Prop} (hT : ∀ a, T a a) (o : Option α) : Option.Rel T o o := by
  cases o with
  | none => exact .none
  | some a => exact .some (hT a)

theorem rel_trans {T : α → α → Prop} (hT : ∀ a b c, T a b → T b c → T a c) {o o₁ o₂ : Option α}
    (h : Option.Rel T o o₁) (h' : Option.Rel T o₁ o₂) : Option.Rel T o o₂ := by
  cases h with
  | none => exact h'
  | some h =>
    cases h' with
    | some h' => exact .some (hT _ _ _ h h')

def Agree (T : α → α → Prop) (t t' : Table kind α) : Prop :=
  t'.slots.size = t.slots.size ∧ ∀ id, Option.Rel T (t.get? id) (t'.get? id)

namespace Agree

variable {T : α → α → Prop} {t t₁ t₂ : Table kind α} {id : Id kind}

theorem refl (hT : ∀ a, T a a) (t : Table kind α) : Agree T t t :=
  ⟨rfl, fun _ => rel_refl hT _⟩

theorem trans (hT : ∀ a b c, T a b → T b c → T a c) (h : Agree T t t₁) (h' : Agree T t₁ t₂) :
    Agree T t t₂ :=
  ⟨h'.1.trans h.1, fun id => rel_trans hT (h.2 id) (h'.2 id)⟩

/-- An object is changed, related tables follow, and the object is changed again. -/
theorem around {f g : α → α} (h : Agree T (t.modify id f) t₁)
    (hT : ∀ a b, t.get? id = some a → T (f a) b → T a (g b)) : Agree T t (t₁.modify id g) := by
  refine ⟨by simpa using h.1, fun other => ?_⟩
  have ho := h.2 other
  rw [get?_modify] at ho ⊢
  by_cases same : other = id
  · subst same
    rw [if_pos rfl] at ho ⊢
    generalize t₁.get? other = o at ho
    cases ha : t.get? other with
    | none =>
      rw [ha] at ho
      cases ho
      exact .none
    | some a =>
      rw [ha] at ho
      cases ho with
      | some ho => exact .some (hT a _ ha ho)
  · rwa [if_neg same] at ho ⊢

theorem modify {g : α → α} (h : Agree T t t₁) (hT : ∀ a b, T a b → T a (g b)) (id : Id kind) :
    Agree T t (t₁.modify id g) := by
  refine ⟨by simpa using h.1, fun other => ?_⟩
  rw [get?_modify]
  have ho := h.2 other
  split
  · generalize t.get? other = o, t₁.get? other = o₁ at ho
    cases ho with
    | none => exact .none
    | some ho => exact .some (hT _ _ ho)
  · exact ho

theorem get? {a : α} (h : Agree T t t₁) (ha : t.get? id = some a) :
    ∃ a', t₁.get? id = some a' ∧ T a a' := by
  have := h.2 id
  rw [ha] at this
  generalize t₁.get? id = o at this
  cases this with
  | some this => exact ⟨_, rfl, this⟩

theorem of_get? {a' : α} (h : Agree T t t₁) (ha : t₁.get? id = some a') :
    ∃ a, t.get? id = some a ∧ T a a' := by
  have := h.2 id
  rw [ha] at this
  generalize t.get? id = o at this
  cases this with
  | some this => exact ⟨_, rfl, this⟩

theorem symm (hT : ∀ a b, T a b → T b a) (h : Agree T t t₁) : Agree T t₁ t := by
  refine ⟨h.1.symm, fun id => ?_⟩
  have := h.2 id
  generalize t.get? id = a, t₁.get? id = b at this
  cases this with
  | none => exact .none
  | some this => exact .some (hT _ _ this)

/-- What agrees in related objects agrees in what an id looks up to. -/
theorem map_get? {β : Type} (h : Agree T t t₁) {g : α → β} (hg : ∀ a a', T a a' → g a' = g a)
    (id : Id kind) : (t₁.get? id).map g = (t.get? id).map g := by
  have := h.2 id
  generalize t.get? id = a, t₁.get? id = b at this
  cases this with
  | none => rfl
  | some this => exact congrArg some (hg _ _ this)

theorem isAlive (h : Agree T t t₁) (id : Id kind) : t₁.isAlive id = t.isAlive id := by
  have := congrArg Option.isSome (h.map_get? (g := fun _ => ()) (fun _ _ _ => rfl) id)
  rwa [Option.isSome_map, Option.isSome_map] at this

/-- What agrees in related objects agrees in the lists of the objects. -/
theorem map_toList {β : Type} {t' : Table kind α} (h : Agree T t t') {g : α → β}
    (hg : ∀ a a', T a a' → g a' = g a) :
    t'.toList.map (fun x => (x.1, g x.2)) = t.toList.map fun x => (x.1, g x.2) := by
  rw [toList_eq, toList_eq, h.1, List.map_filterMap, List.map_filterMap]
  refine List.filterMap_congr fun i _ => ?_
  have := h.2 ⟨i⟩
  generalize t.get? ⟨i⟩ = a, t'.get? ⟨i⟩ = a' at this
  cases this with
  | none => rfl
  | some this => simp [hg _ _ this]

theorem total_toList {t' : Table kind α} (h : Agree T t t') {f : α → Nat}
    (hf : ∀ a a', T a a' → f a' = f a) :
    total (fun x => f x.2) t'.toList = total (fun x => f x.2) t.toList := by
  have := congrArg (total Prod.snd) (h.map_toList hf)
  rwa [total_map, total_map] at this

theorem count {t' : Table kind α} (h : Agree T t t') : t'.count = t.count := by
  rw [count_eq_length, count_eq_length, ← total_one, ← total_one]
  exact h.total_toList (f := fun _ => 1) fun _ _ _ => rfl

end Agree

end Frontend.Table
