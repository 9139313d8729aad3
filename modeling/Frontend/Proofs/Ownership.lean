import Frontend.Proofs.Traversal.Rewriting
import Frontend.Store.Ownership

/-!
# What a collection leaves

A sweep changes no object and keeps what is held from outside and what an object that is there owns.
So the modules held from outside stay, with everything registered in them.
-/

namespace Frontend

section Marks

variable {kind : ObjectKind} {α : Type}

private theorem getD_mark (flags : Array Bool) (ids : List (Id kind)) (i : Nat) :
    ((ids.foldl (fun flags id => flags.setIfInBounds id.index true) flags)[i]?.getD false) =
      (flags[i]?.getD false || decide (i < flags.size ∧ ∃ id ∈ ids, id.index = i)) := by
  induction ids generalizing flags with
  | nil => simp
  | cons id ids ih =>
    rw [List.foldl_cons, ih, Array.size_setIfInBounds, Array.getElem?_setIfInBounds]
    by_cases hi : id.index = i
    · subst hi
      by_cases hb : id.index < flags.size
      · simp [hb]
      · simp [hb]
    · simp [hi]

theorem Marks.contains_ofList (size : Nat) (ids : List (Id kind)) (id : Id kind) :
    (Marks.ofList size ids).contains id = decide (id.index < size ∧ id ∈ ids) := by
  have same : (∃ other ∈ ids, other.index = id.index) ↔ id ∈ ids := by
    constructor
    · rintro ⟨other, ho, hi⟩
      obtain rfl : other = id := by
        cases other
        cases id
        simp_all
      exact ho
    · exact fun h => ⟨id, h, rfl⟩
  unfold Marks.contains Marks.ofList
  simp only [getD_mark, Array.size_replicate, same]
  by_cases hi : id.index < size <;> simp [hi]

theorem Table.get?_owned (t : Table kind α) (ids : List (Id kind)) (id : Id kind) :
    (t.owned ids).get? id = if id ∈ ids then t.get? id else none := by
  unfold Table.owned
  rw [Table.get?_restrict, Marks.contains_ofList]
  by_cases hi : id.index < t.slots.size
  · simp [hi]
  · simp [hi, Table.get?_eq_none_of_size_le (Nat.le_of_not_lt hi)]

def Table.PartOf (t' t : Table kind α) : Prop := ∀ id a, t'.get? id = some a → t.get? id = some a

theorem Table.partOf_owned (t : Table kind α) (ids : List (Id kind)) : (t.owned ids).PartOf t := by
  intro id a h
  rw [Table.get?_owned] at h
  split at h
  · exact h
  · cases h

end Marks

namespace Holdings

variable {l : List Holdings}

theorem functions_append (a b : Holdings) : (a ++ b).functions = a.functions ++ b.functions := rfl

theorem vars_append (a b : Holdings) : (a ++ b).vars = a.vars ++ b.vars := rfl

theorem structs_append (a b : Holdings) : (a ++ b).structs = a.structs ++ b.structs := rfl

theorem enumerations_append (a b : Holdings) :
    (a ++ b).enumerations = a.enumerations ++ b.enumerations := rfl

theorem annots_append (a b : Holdings) : (a ++ b).annots = a.annots ++ b.annots := rfl

theorem modules_append (a b : Holdings) : (a ++ b).modules = a.modules ++ b.modules := rfl

theorem rewriters_append (a b : Holdings) : (a ++ b).rewriters = a.rewriters ++ b.rewriters := rfl

/-- What many hold together, one of them holds. -/
theorem mem_join {α : Type} {f : Holdings → List α} (hnil : f {} = [])
    (happend : ∀ a b, f (a ++ b) = f a ++ f b) {x : α} : x ∈ f (join l) ↔ ∃ h ∈ l, x ∈ f h := by
  induction l with
  | nil => simp [join, hnil]
  | cons h l ih =>
    have : f (join (h :: l)) = f h ++ f (join l) := happend h (join l)
    simp [this, ih]

theorem mem_functions_join {id : FunctionId} :
    id ∈ (join l).functions ↔ ∃ h ∈ l, id ∈ h.functions := mem_join rfl functions_append

theorem mem_vars_join {id : VarId} : id ∈ (join l).vars ↔ ∃ h ∈ l, id ∈ h.vars :=
  mem_join rfl vars_append

theorem mem_structs_join {id : StructId} : id ∈ (join l).structs ↔ ∃ h ∈ l, id ∈ h.structs :=
  mem_join rfl structs_append

theorem mem_enumerations_join {id : EnumId} :
    id ∈ (join l).enumerations ↔ ∃ h ∈ l, id ∈ h.enumerations :=
  mem_join rfl enumerations_append

theorem mem_annots_join {id : AnnotId} : id ∈ (join l).annots ↔ ∃ h ∈ l, id ∈ h.annots :=
  mem_join rfl annots_append

theorem mem_modules_join {id : ModuleId} : id ∈ (join l).modules ↔ ∃ h ∈ l, id ∈ h.modules :=
  mem_join rfl modules_append

theorem mem_rewriters_join {id : RewriterId} :
    id ∈ (join l).rewriters ↔ ∃ h ∈ l, id ∈ h.rewriters := mem_join rfl rewriters_append

end Holdings

namespace Store

variable {s t : Store} {outside : Holdings} {m : ModuleId} {x : Module} {id : FunctionId}

structure PartOf (t s : Store) : Prop where
  functions : t.functions.PartOf s.functions
  structs : t.structs.PartOf s.structs
  enumerations : t.enumerations.PartOf s.enumerations
  vars : t.vars.PartOf s.vars
  modules : t.modules.PartOf s.modules

theorem PartOf.refl (s : Store) : s.PartOf s :=
  ⟨fun _ _ h => h, fun _ _ h => h, fun _ _ h => h, fun _ _ h => h, fun _ _ h => h⟩

theorem PartOf.trans {u : Store} (h : u.PartOf t) (h' : t.PartOf s) : u.PartOf s where
  functions id a ha := h'.functions id a (h.functions id a ha)
  structs id a ha := h'.structs id a (h.structs id a ha)
  enumerations id a ha := h'.enumerations id a (h.enumerations id a ha)
  vars id a ha := h'.vars id a (h.vars id a ha)
  modules id a ha := h'.modules id a (h.modules id a ha)

theorem partOf_sweep (s : Store) (outside : Holdings) : (s.sweep outside).PartOf s where
  functions := Table.partOf_owned _ _
  structs := Table.partOf_owned _ _
  enumerations := Table.partOf_owned _ _
  vars := Table.partOf_owned _ _
  modules := Table.partOf_owned _ _

theorem module?_sweep (h : m ∈ outside.modules) : (s.sweep outside).module? m = s.module? m := by
  have hm : m ∈ (outside ++ s.holdings).modules := by
    rw [Holdings.modules_append]
    exact List.mem_append_left _ h
  simp only [module?, sweep, Table.get?_owned, if_pos hm]

theorem mem_holdings_of_registered (hx : s.module? m = some x)
    (hid : id ∈ x.functions.values ++ x.generics.values) : id ∈ s.holdings.functions := by
  have hm : (m, x) ∈ s.modules.toList := Table.mem_toList.2 hx
  have : id ∈ (Holdings.join (s.modules.toList.map (·.2.holdings))).functions :=
    Holdings.mem_functions_join.2 ⟨x.holdings, List.mem_map.2 ⟨(m, x), hm, rfl⟩, hid⟩
  simp only [holdings, Holdings.functions_append, List.mem_append]
  exact .inl (.inr this)

theorem function?_sweep (hx : s.module? m = some x)
    (hid : id ∈ x.functions.values ++ x.generics.values) :
    (s.sweep outside).function? id = s.function? id := by
  have hid : id ∈ (outside ++ s.holdings).functions := by
    rw [Holdings.functions_append]
    exact List.mem_append_right _ (mem_holdings_of_registered hx hid)
  simp only [function?, sweep, Table.get?_owned, if_pos hid]

theorem collect_induction {Q : Store → Prop} (hs : Q s) (hQ : ∀ t, Q t → Q (t.sweep outside)) :
    Q (s.collect outside) := by
  unfold collect
  generalize s.count + 1 = rounds
  induction rounds generalizing s with
  | zero => exact hs
  | succ rounds ih =>
    simp only [sweepMany]
    split
    · exact hs
    · exact ih (hQ s hs)

theorem partOf_collect (s : Store) (outside : Holdings) : (s.collect outside).PartOf s :=
  collect_induction (.refl s) fun t ht => (partOf_sweep t outside).trans ht

theorem module?_collect (h : m ∈ outside.modules) :
    (s.collect outside).module? m = s.module? m :=
  collect_induction (Q := fun t => t.module? m = s.module? m) rfl fun t ht => by
    rw [module?_sweep h, ht]

theorem module_collect (h : m ∈ outside.modules) : (s.collect outside).module m = s.module m := by
  simp only [module, module?_collect h]

/-- What sweeps leave alone as long as the module is there, a collection leaves alone. -/
theorem read_collect {α : Type} (read : Store → α) (h : m ∈ outside.modules)
    (hx : s.module? m = some x)
    (hsweep : ∀ t : Store, t.module? m = some x → read (t.sweep outside) = read t) :
    read (s.collect outside) = read s := by
  refine (collect_induction (Q := fun t => t.module? m = some x ∧ read t = read s) ⟨hx, rfl⟩ ?_).2
  rintro t ⟨htx, ht⟩
  exact ⟨by rw [module?_sweep h, htx], by rw [hsweep t htx, ht]⟩

/-- What is registered in a module that is held stays as it is. -/
theorem function?_collect (h : m ∈ outside.modules)
    (hid : id ∈ (s.module m).functions.values ++ (s.module m).generics.values) :
    (s.collect outside).function? id = s.function? id := by
  cases hx : s.module? m with
  | none =>
    simp only [module, hx, Option.getD_none] at hid
    cases hid
  | some x =>
    simp only [module, hx, Option.getD_some] at hid
    exact read_collect (·.function? id) h hx fun t ht => function?_sweep ht hid

theorem struct?_collect {id : StructId} (h : m ∈ outside.modules)
    (hid : id ∈ (s.module m).structs.values) :
    (s.collect outside).struct? id = s.struct? id := by
  cases hx : s.module? m with
  | none =>
    simp only [module, hx, Option.getD_none] at hid
    cases hid
  | some x =>
    simp only [module, hx, Option.getD_some] at hid
    refine read_collect (·.struct? id) h hx fun t ht => ?_
    have : id ∈ (Holdings.join (t.modules.toList.map (·.2.holdings))).structs :=
      Holdings.mem_structs_join.2 ⟨x.holdings, List.mem_map.2 ⟨(m, x), Table.mem_toList.2 ht, rfl⟩,
        List.mem_append_left _ hid⟩
    have hid : id ∈ (outside ++ t.holdings).structs := by
      simp only [holdings, Holdings.structs_append, List.mem_append]
      exact .inr (.inl (.inr this))
    simp only [struct?, sweep, Table.get?_owned, if_pos hid]

theorem enumeration?_collect {id : EnumId} (h : m ∈ outside.modules)
    (hid : id ∈ (s.module m).enumerations.values) :
    (s.collect outside).enumeration? id = s.enumeration? id := by
  cases hx : s.module? m with
  | none =>
    simp only [module, hx, Option.getD_none] at hid
    cases hid
  | some x =>
    simp only [module, hx, Option.getD_some] at hid
    refine read_collect (·.enumeration? id) h hx fun t ht => ?_
    have : id ∈ (Holdings.join (t.modules.toList.map (·.2.holdings))).enumerations :=
      Holdings.mem_enumerations_join.2
        ⟨x.holdings, List.mem_map.2 ⟨(m, x), Table.mem_toList.2 ht, rfl⟩, hid⟩
    have hid : id ∈ (outside ++ t.holdings).enumerations := by
      simp only [holdings, Holdings.enumerations_append, List.mem_append]
      exact .inr (.inl (.inr this))
    simp only [enumeration?, sweep, Table.get?_owned, if_pos hid]

theorem annot?_collect {id : AnnotId} (h : m ∈ outside.modules)
    (hid : id ∈ (s.module m).annots.values) : (s.collect outside).annot? id = s.annot? id := by
  cases hx : s.module? m with
  | none =>
    simp only [module, hx, Option.getD_none] at hid
    cases hid
  | some x =>
    simp only [module, hx, Option.getD_some] at hid
    refine read_collect (·.annot? id) h hx fun t ht => ?_
    have : id ∈ (Holdings.join (t.modules.toList.map (·.2.holdings))).annots :=
      Holdings.mem_annots_join.2
        ⟨x.holdings, List.mem_map.2 ⟨(m, x), Table.mem_toList.2 ht, rfl⟩, hid⟩
    have hid : id ∈ (outside ++ t.holdings).annots := by
      simp only [holdings, Holdings.annots_append, List.mem_append]
      exact .inr (.inl (.inr this))
    simp only [annot?, sweep, Table.get?_owned, if_pos hid]

theorem var_of_partOf {v : VarId} {i : Expr} (h : t.PartOf s) (hi : (t.var v).init = some i) :
    (s.var v).init = some i := by
  obtain ⟨x, hx, hi⟩ := get?_of_init hi
  have hx : s.vars.get? v = some x := h.vars v x hx
  rw [var, hx]
  exact hi

end Store

namespace Program

variable {p : Program} {s : Store} {m : ModuleId} {id : FunctionId}

/-- A function or a generic of a visible module. -/
def Registers (p : Program) (id : FunctionId) : Prop :=
  ∃ m ∈ p.library, id ∈ (p.store.module m).functions.values ++ (p.store.module m).generics.values

theorem module_collect (h : m ∈ p.library) : p.collect.store.module m = p.store.module m :=
  Store.module_collect (List.mem_append_left _ h)

theorem registers_collect : p.collect.Registers = p.Registers := by
  funext id
  refine propext (exists_congr fun m => and_congr_right fun hm => ?_)
  have hm : m ∈ p.library := hm
  rw [module_collect hm]

theorem function?_collect (h : p.Registers id) :
    p.collect.store.function? id = p.store.function? id := by
  obtain ⟨m, hm, hid⟩ := h
  exact Store.function?_collect (m := m) (List.mem_append_left _ hm) hid

theorem isAlive_collect (h : p.Registers id) :
    p.collect.store.functions.isAlive id = p.store.functions.isAlive id := by
  have := function?_collect h
  unfold Store.function? at this
  unfold Table.isAlive
  rw [this]

section Rewritten

variable {R : Expr → Expr → Prop} (h : p.store.Rewritten R s)

include h

theorem module_inStore_of_rewritten : (p.inStore s).store.module m = p.store.module m := by
  simp only [inStore, Store.module, Store.module?, h.modules]

theorem module_of_rewritten (hm : m ∈ p.library) :
    (p.inStore s).collect.store.module m = p.store.module m := by
  rw [module_collect (p := p.inStore s) hm, module_inStore_of_rewritten h]

theorem registers_inStore_of_rewritten : (p.inStore s).Registers = p.Registers := by
  funext id
  refine propext (exists_congr fun m => and_congr_right fun hm => ?_)
  rw [module_inStore_of_rewritten h]

theorem registers_of_rewritten : (p.inStore s).collect.Registers = p.Registers := by
  rw [registers_collect, registers_inStore_of_rewritten h]

theorem function?_of_rewritten (hid : p.Registers id) :
    (p.inStore s).collect.store.function? id = s.function? id :=
  function?_collect (p := p.inStore s) (registers_inStore_of_rewritten h ▸ hid)

end Rewritten

end Program

end Frontend
