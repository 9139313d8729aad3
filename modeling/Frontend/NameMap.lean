/-!
# Maps from names

Entries sorted by name, so that everything derived from their order is the same in every run.
-/

namespace Frontend

/-- Entries in ascending order of their names, so each name once. -/
@[ext] structure NameMap (α : Type) where
  toList : List (String × α) := []
  ascending : toList.Pairwise (fun e f => e.1 < f.1) := by simp

namespace NameMap

variable {α : Type}

def empty : NameMap α := {}

instance : Inhabited (NameMap α) := ⟨empty⟩

def find? (m : NameMap α) (name : String) : Option α := m.toList.lookup name

def contains (m : NameMap α) (name : String) : Bool := (m.find? name).isSome

def keys (m : NameMap α) : List String := m.toList.map (·.1)

def values (m : NameMap α) : List α := m.toList.map (·.2)

private def insertSorted (name : String) (a : α) : List (String × α) → List (String × α)
  | [] => [(name, a)]
  | (key, b) :: rest =>
    if name < key then (name, a) :: (key, b) :: rest
    else if name = key then (name, a) :: rest
    else (key, b) :: insertSorted name a rest

private theorem mem_insertSorted {name : String} {a : α} {l : List (String × α)}
    {e : String × α} (h : e ∈ insertSorted name a l) : e = (name, a) ∨ e ∈ l := by
  induction l with
  | nil => simpa [insertSorted] using h
  | cons d rest ih =>
    unfold insertSorted at h
    split at h
    · simpa using h
    · split at h <;> simp only [List.mem_cons] at h ⊢
      · exact h.imp_right .inr
      · rcases h with h | h
        · exact .inr (.inl h)
        · exact (ih h).imp_right .inr

private theorem pairwise_insertSorted (name : String) (a : α) {l : List (String × α)}
    (h : l.Pairwise (fun e f => e.1 < f.1)) :
    (insertSorted name a l).Pairwise (fun e f => e.1 < f.1) := by
  induction l with
  | nil => simp [insertSorted]
  | cons d rest ih =>
    obtain ⟨first, later⟩ := List.pairwise_cons.1 h
    unfold insertSorted
    split
    · rename_i below
      refine List.pairwise_cons.2 ⟨fun f hf => ?_, h⟩
      rcases List.mem_cons.1 hf with rfl | hf
      · exact below
      · exact String.lt_trans below (first f hf)
    · rename_i above
      split
      · rename_i same
        exact List.pairwise_cons.2 ⟨fun f hf => same ▸ first f hf, later⟩
      · rename_i other
        refine List.pairwise_cons.2 ⟨fun f hf => ?_, ih later⟩
        rcases mem_insertSorted hf with rfl | hf
        · exact Std.lt_of_le_of_ne (String.not_lt.1 above) (Ne.symm other)
        · exact first f hf

/-- Adds an entry, taking the place of one of the same name. -/
def insert (m : NameMap α) (name : String) (a : α) : NameMap α :=
  ⟨insertSorted name a m.toList, pairwise_insertSorted name a m.ascending⟩

def erase (m : NameMap α) (name : String) : NameMap α :=
  ⟨m.toList.filter (·.1 != name), m.ascending.filter _⟩

/-- The map of the entries; of equal names the last one stays. -/
def ofList (entries : List (String × α)) : NameMap α :=
  entries.foldl (fun m e => m.insert e.1 e.2) empty

private theorem lookup_insertSorted_self (name : String) (a : α) (l : List (String × α)) :
    (insertSorted name a l).lookup name = some a := by
  induction l with
  | nil => simp [insertSorted]
  | cons e rest ih =>
    obtain ⟨key, b⟩ := e
    unfold insertSorted
    split
    · simp
    · split
      · simp
      · rename_i h
        have : (name == key) = false := by simpa using h
        simp [List.lookup_cons, this, ih]

private theorem lookup_insertSorted_of_ne {name other : String} (h : other ≠ name) (a : α)
    (l : List (String × α)) : (insertSorted name a l).lookup other = l.lookup other := by
  have hn : (other == name) = false := by simpa using h
  induction l with
  | nil => simp [insertSorted, List.lookup_cons, hn]
  | cons e rest ih =>
    obtain ⟨key, b⟩ := e
    unfold insertSorted
    split
    · simp [List.lookup_cons, hn]
    · split
      · rename_i hk
        subst hk
        simp [List.lookup_cons, hn]
      · simp only [List.lookup_cons]
        split <;> simp_all

/-- An entry whose name is above all others goes to the end. -/
private theorem insertSorted_of_above {name : String} (a : α) {l : List (String × α)}
    (h : ∀ e ∈ l, e.1 < name) : insertSorted name a l = l ++ [(name, a)] := by
  induction l with
  | nil => rfl
  | cons e rest ih =>
    obtain ⟨key, b⟩ := e
    have hk : key < name := h (key, b) (.head _)
    have other : name ≠ key := fun same => String.lt_irrefl key (by rwa [same] at hk)
    unfold insertSorted
    rw [if_neg (String.lt_asymm hk), if_neg other, ih fun e he => h e (.tail _ he)]
    rfl

/-- A map is made of its own entries. -/
@[simp] theorem ofList_toList (m : NameMap α) : ofList m.toList = m := by
  have build : ∀ (l : List (String × α)) (front : NameMap α),
      (front.toList ++ l).Pairwise (fun e f => e.1 < f.1) →
      (l.foldl (fun m e => m.insert e.1 e.2) front).toList = front.toList ++ l := by
    intro l
    induction l with
    | nil => simp
    | cons e l ih =>
      intro front h
      have above : ∀ d ∈ front.toList, d.1 < e.1 := fun d hd =>
        (List.pairwise_append.1 h).2.2 d hd e (.head _)
      have hi : (front.insert e.1 e.2).toList = front.toList ++ [e] :=
        insertSorted_of_above e.2 above
      rw [List.foldl_cons, ih _ (by simpa [hi] using h), hi, List.append_assoc,
        List.singleton_append]
  exact NameMap.ext (build m.toList empty m.ascending)

@[simp] theorem find?_empty (name : String) : (empty : NameMap α).find? name = none := rfl

@[simp] theorem find?_insert_self (m : NameMap α) (name : String) (a : α) :
    (m.insert name a).find? name = some a := lookup_insertSorted_self name a m.toList

theorem find?_insert_of_ne (m : NameMap α) {name other : String} (a : α) (h : other ≠ name) :
    (m.insert name a).find? other = m.find? other := lookup_insertSorted_of_ne h a m.toList

@[simp] theorem find?_erase_self (m : NameMap α) (name : String) :
    (m.erase name).find? name = none := by
  simp only [find?, erase]
  induction m.toList with
  | nil => rfl
  | cons e rest ih =>
    obtain ⟨key, b⟩ := e
    by_cases h : key = name
    · simp [h, ih]
    · have : (name == key) = false := by simpa using Ne.symm h
      simp [h, List.lookup_cons, this, ih]

theorem find?_erase_of_ne (m : NameMap α) {name other : String} (h : other ≠ name) :
    (m.erase name).find? other = m.find? other := by
  simp only [find?, erase]
  induction m.toList with
  | nil => rfl
  | cons e rest ih =>
    obtain ⟨key, b⟩ := e
    by_cases hk : key = name
    · subst hk
      have : (other == key) = false := by simpa using h
      simp [List.lookup_cons, this, ih]
    · simp only [bne_iff_ne, ne_eq, hk, not_false_eq_true, List.filter_cons_of_pos,
        List.lookup_cons, ih]

private theorem mem_of_lookup {name : String} {a : α} {l : List (String × α)}
    (h : l.lookup name = some a) : (name, a) ∈ l := by
  induction l with
  | nil => cases h
  | cons e rest ih =>
    obtain ⟨key, b⟩ := e
    by_cases same : name = key
    · subst same
      simp only [List.lookup_cons, beq_self_eq_true, Option.some.injEq] at h
      subst h
      exact .head _
    · have other : (name == key) = false := by simpa using same
      simp only [List.lookup_cons, other] at h
      exact .tail _ (ih h)

private theorem lookup_of_mem {name : String} {a : α} {l : List (String × α)}
    (hl : l.Pairwise (fun e f => e.1 < f.1)) (h : (name, a) ∈ l) : l.lookup name = some a := by
  induction l with
  | nil => cases h
  | cons e rest ih =>
    obtain ⟨key, b⟩ := e
    obtain ⟨first, later⟩ := List.pairwise_cons.1 hl
    rcases List.mem_cons.1 h with h | h
    · cases h
      simp
    · have below : key < name := first (name, a) h
      have other : (name == key) = false := by
        simp only [beq_eq_false_iff_ne, ne_eq]
        intro same
        rw [same] at below
        exact String.lt_irrefl _ below
      simp only [List.lookup_cons, other, ih later h]

/-- The entries are what look-ups find. -/
theorem mem_toList {m : NameMap α} {name : String} {a : α} :
    (name, a) ∈ m.toList ↔ m.find? name = some a :=
  ⟨lookup_of_mem m.ascending, mem_of_lookup⟩

theorem toList_eraseMany (names : List String) (m : NameMap α) :
    (names.foldl erase m).toList = m.toList.filter fun e => !names.contains e.1 := by
  induction names generalizing m with
  | nil => exact (List.filter_eq_self.2 fun _ _ => rfl).symm
  | cons name names ih =>
    rw [List.foldl_cons, ih, erase, List.filter_filter]
    congr 1
    funext e
    by_cases h : e.1 = name <;> simp [h]

end NameMap

end Frontend
