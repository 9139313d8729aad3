import Frontend.Proofs.Registration.Keeping

/-!
# Declarations replaced in a visit

A visitor that leaves names, stamps and registries alone, and replaces structures and enumerations
by others that exist, leaves a module that is registered as before: every structure in the place of
the one that it replaced, and all under their own names. Replacements are not stamped. So each
declaration of the module carries its name afterwards exactly if each replacement carried it when it
was given.
-/

namespace Frontend

/-- A kind of declarations that a module files under their names: what a store knows of them, and
how one is put in the place of another. -/
structure Filing (m : ModuleId) (α : Type) where
  mark : Store → α → Mark
  map : Store → NameMap α
  /-- The declarations in the order of a visit. -/
  list : Store → List α
  replace : Store → α → α → Store
  mark_kept : ∀ {s t : Store}, s.KeepsRegistry m t → ∀ a w, mark s a = some w → mark t a = some w
  map_kept : ∀ {s t : Store}, s.KeepsRegistry m t → map t = map s
  list_kept : ∀ {s t : Store}, s.KeepsRegistry m t → list t = list s
  marks_replace : ∀ (s : Store) old new, s.KeepsMarks (replace s old new)
  mark_replace : ∀ s old new, mark (replace s old new) = mark s
  map_replace : ∀ s old new, (s.module? m).isSome = true →
    let x := Succession.of (mark s) old new
    map (replace s old new) = ((map s).erase x.oldName).insert x.newName new
  isSome_replace : ∀ s old new, ((replace s old new).module? m).isSome = (s.module? m).isSome

theorem Store.module_modifyModule {s : Store} {m : ModuleId} (h : (s.module? m).isSome = true)
    (g : Module → Module) : (s.modifyModule m g).module m = g (s.module m) := by
  obtain ⟨x, hx⟩ := Option.isSome_iff_exists.1 h
  rw [Store.module_of hx, Store.module_of (Store.module?_modifyModule hx g)]

theorem Store.read_modifyModule {α : Type} {s : Store} {m : ModuleId} {g : Module → Module}
    (h : (s.module? m).isSome = true) (read : Module → α) (hg : ∀ x, read (g x) = read x) :
    read ((s.modifyModule m g).module m) = read (s.module m) := by
  rw [Store.module_modifyModule h, hg]

theorem Store.isSome_modifyModule (s : Store) (m : ModuleId) (g : Module → Module) :
    ((s.modifyModule m g).module? m).isSome = (s.module? m).isSome := by
  rw [Store.module?, Store.modifyModule, Table.get?_modify_self, Option.isSome_map]
  rfl

def Filing.structs (m : ModuleId) : Filing m StructId where
  mark := Store.structMark
  map s := (s.module m).structs
  list s := (s.module m).structOrder
  replace s old new := s.replaceStruct m old new
  mark_kept h := h.structs.map_get?
  map_kept h := congrArg (·.2.1) h.registry
  list_kept h := congrArg (·.2.2.1) h.registry
  marks_replace s _ _ := ⟨.refl _ s.structs, .refl _ s.enumerations⟩
  mark_replace _ _ _ := rfl
  map_replace s old new h := by
    have hname (id : StructId) : ((s.structMark id).map (·.1)).getD "" =
        ((s.struct? id).map (·.name)).getD "" := by
      rw [Store.structMark, Option.map_map]
      rfl
    simp only [Succession.of, hname]
    rw [Store.replaceStruct, Store.module_modifyModule h]
  isSome_replace s _ _ := s.isSome_modifyModule m _

def Filing.enumerations (m : ModuleId) : Filing m EnumId where
  mark := Store.enumMark
  map s := (s.module m).enumerations
  list s := (s.module m).enumerations.values
  replace s old new := s.replaceEnumeration m old new
  mark_kept h := h.enumerations.map_get?
  map_kept h := congrArg (·.2.2.2) h.registry
  list_kept h := congrArg (·.2.2.2.values) h.registry
  marks_replace s _ _ := ⟨.refl _ s.structs, .refl _ s.enumerations⟩
  mark_replace _ _ _ := rfl
  map_replace s old new h := by
    have hname (id : EnumId) : ((s.enumMark id).map (·.1)).getD "" =
        ((s.enumeration? id).map (·.name)).getD "" := by
      rw [Store.enumMark, Option.map_map]
      rfl
    simp only [Succession.of, hname]
    rw [Store.replaceEnumeration, Store.module_modifyModule h]
  isSome_replace s _ _ := s.isSome_modifyModule m _

namespace Filing

variable {σ α : Type} {m : ModuleId} (k : Filing m α) {leave : α → VisitM σ (Rewrite α)}
  {x : Succession α} {st st' : Visit σ}

/-- A visit has come to a declaration, the hook has given an answer, and it has been carried out. -/
def Step (leave : α → VisitM σ (Rewrite α)) (x : Succession α) (st st' : Visit σ) : Prop :=
  ∃ st₁ r st₂, Visit.KeepsRegistry m st st₁ ∧ (leave x.old).run st₁ = .ok (r, st₂) ∧
    (st₂.store.module? m).isSome = true ∧ x = .of (k.mark st₂.store) x.old x.new ∧
    (r = .keep ∧ x.new = x.old ∧ st' = st₂ ∨
      r = .replace x.new ∧ (k.mark st₂.store x.new).isSome = true ∧
        st' = st₂.inStore (k.replace st₂.store x.old x.new))

/-- A loop that visits declarations and puts in their places what the answers say. -/
theorem steps_of_loop {s₀ : Store} {visit : α → VisitM σ (Rewrite α)}
    {body : α → PUnit → VisitM σ (ForInStep PUnit)}
    (hvisit : ∀ a, Visitor.LeadsTo (Visit.KeepsRegistry m) (leave a) (visit a))
    (hleave : ∀ a, Moves (Visit.KeepsRegistry m) (leave a))
    (hnew : ∀ a st new st', s₀.KeepsMarks st.store → (leave a).run st = .ok (.replace new, st') →
      (k.mark st'.store new).isSome = true)
    (hbody : ∀ a st r st', (body a ⟨⟩).run st = .ok (r, st') →
      r = .yield ⟨⟩ ∧ ∃ answer st₁, (visit a).run st = .ok (answer, st₁) ∧
        (answer = .keep ∧ st' = st₁ ∨
          ∃ new, answer = .replace new ∧ st' = st₁.inStore (k.replace st₁.store a new)))
    {as : List α} {r : PUnit} (hm : (st.store.module? m).isSome = true)
    (hs : s₀.KeepsMarks st.store)
    (h : (do forIn as PUnit.unit body; pure PUnit.unit).run st = .ok (r, st')) :
    ((st'.store.module? m).isSome = true ∧ s₀.KeepsMarks st'.store) ∧
      ∃ xs : List (Succession α), xs.map (·.old) = as ∧ Run (k.Step leave) xs st st' := by
  obtain ⟨_, _, h, hend⟩ := exists_of_bind h
  cases hend
  refine Run.of_loop (I := fun st => (st.store.module? m).isSome = true ∧ s₀.KeepsMarks st.store)
    (fun a st r st' hI hstep => ?_) ⟨hm, hs⟩ h
  obtain ⟨hm, hs⟩ := hI
  obtain ⟨rfl, answer, st₂, hanswer, hcase⟩ := hbody a st r st' hstep
  obtain ⟨st₁, hbefore, hrun⟩ := hvisit a _ _ _ hanswer
  have hs₁ : s₀.KeepsMarks st₁.store := hs.trans hbefore.marks
  have hkept : st.store.KeepsRegistry m st₂.store := hbefore.trans (hleave a _ _ _ hrun)
  have hm₂ : (st₂.store.module? m).isSome = true := hkept.isSome.trans hm
  have hs₂ : s₀.KeepsMarks st₂.store := hs.trans hkept.marks
  obtain ⟨rfl, rfl⟩ | ⟨new, rfl, rfl⟩ := hcase
  · exact ⟨rfl, ⟨hm₂, hs₂⟩, .of (k.mark st'.store) a a, rfl, st₁, _, _, hbefore, hrun, hm₂, rfl,
      .inl ⟨rfl, rfl, rfl⟩⟩
  · exact ⟨rfl, ⟨(k.isSome_replace _ _ _).trans hm₂, hs₂.trans (k.marks_replace _ _ _)⟩,
      .of (k.mark st₂.store) a new, rfl, st₁, _, _, hbefore, hrun, hm₂, rfl,
      .inr ⟨rfl, hnew _ _ _ _ hs₁ hrun, rfl⟩⟩

/-- A step puts one declaration in the place of another. -/
theorem succeeds_of_step (hleave : ∀ a, Moves (Visit.KeepsRegistry m) (leave a))
    (h : k.Step leave x st st') :
    Succeeds (k.map st.store) (k.map st'.store) (k.mark st.store) (k.mark st'.store) x := by
  obtain ⟨st₁, r, st₂, hbefore, hrun, hm, hx, hcase⟩ := h
  have hkept : st.store.KeepsRegistry m st₂.store := hbefore.trans (hleave _ _ _ _ hrun)
  have hmark : k.mark st'.store = k.mark st₂.store := by
    obtain ⟨-, -, rfl⟩ | ⟨-, -, rfl⟩ := hcase
    · rfl
    · exact k.mark_replace _ _ _
  have hname (w : String × Option String) (hw : k.mark st₂.store x.old = some w) :
      w.1 = x.oldName := by
    rw [hx, Succession.of, hw]
    rfl
  have hentry (w : String × Option String) (hw : k.mark st₂.store x.new = some w) :
      k.mark st₂.store x.new = some (x.newName, x.stamp) := by
    rw [hw, hx]
    simp [Succession.of, hw]
  refine ⟨fun a w ha => ?_, fun w hw => hname w (k.mark_kept hkept _ w hw), fun hold => ?_, ?_⟩
  · rw [hmark]
    exact k.mark_kept hkept a w ha
  · rw [hmark]
    obtain ⟨w, hw⟩ := Option.isSome_iff_exists.1 hold
    obtain ⟨-, hsame, -⟩ | ⟨-, hnew, -⟩ := hcase
    · exact hentry w (by rw [hsame, k.mark_kept hkept _ w hw])
    · obtain ⟨w', hw'⟩ := Option.isSome_iff_exists.1 hnew
      exact hentry w' hw'
  · obtain ⟨-, hsame, rfl⟩ | ⟨-, -, rfl⟩ := hcase
    · exact .inl ⟨hsame, k.map_kept hkept⟩
    · have hmap := k.map_replace st₂.store x.old x.new hm
      dsimp only at hmap
      rw [← hx] at hmap
      exact .inr (hmap.trans (by rw [k.map_kept hkept]))

def Answered (leave : α → VisitM σ (Rewrite α)) (x : Succession α) : Prop :=
  ∃ st r st', (leave x.old).run st = .ok (r, st') ∧ r.apply x.old = some x.new ∧
    x = .of (k.mark st'.store) x.old x.new

theorem Step.answered (h : k.Step leave x st st') : k.Answered leave x := by
  obtain ⟨st₁, r, st₂, -, hrun, -, hx, hcase⟩ := h
  refine ⟨st₁, r, st₂, hrun, ?_, hx⟩
  obtain ⟨rfl, hsame, -⟩ | ⟨rfl, -⟩ := hcase
  · rw [hsame, Rewrite.apply_keep]
  · rw [Rewrite.apply_replace]

def Stamped (s : Store) : Prop :=
  ∀ a ∈ (k.map s).values, ∃ name, k.mark s a = some (name, some (s.module m).name)

structure Keeps (s t : Store) : Prop where
  name : (t.module m).name = (s.module m).name
  map : k.map t = k.map s
  list : k.list t = k.list s
  mark : ∀ a w, k.mark s a = some w → k.mark t a = some w

namespace Keeps

variable {k} {s t u : Store}

theorem refl (s : Store) : k.Keeps s s := ⟨rfl, rfl, rfl, fun _ _ h => h⟩

theorem trans (h : k.Keeps s t) (h' : k.Keeps t u) : k.Keeps s u :=
  ⟨h'.name.trans h.name, h'.map.trans h.map, h'.list.trans h.list,
    fun a w hw => h'.mark a w (h.mark a w hw)⟩

theorem of_registry (h : s.KeepsRegistry m t) : k.Keeps s t :=
  ⟨congrArg (·.1) h.registry, k.map_kept h, k.list_kept h, k.mark_kept h⟩

theorem registered (h : k.Keeps s t) (hs : Registered (k.map s) (k.mark s) (k.list s)) :
    Registered (k.map t) (k.mark t) (k.list t) := by
  rw [h.map, h.list]
  exact hs.congr (hs.mark_eq h.mark)

theorem stamped (h : k.Keeps s t) (hs : k.Stamped s) : k.Stamped t := by
  intro a ha
  rw [h.map] at ha
  obtain ⟨name, hname⟩ := hs a ha
  rw [h.name]
  exact ⟨name, h.mark a _ hname⟩

end Keeps

/-- A step leaves the declarations of another kind alone. -/
theorem Step.keeps {β : Type} (other : Filing m β)
    (hleave : ∀ a, Moves (Visit.KeepsRegistry m) (leave a))
    (hother : ∀ s old new, (s.module? m).isSome = true → other.Keeps s (k.replace s old new))
    (h : k.Step leave x st st') : other.Keeps st.store st'.store := by
  obtain ⟨st₁, r, st₂, hbefore, hrun, hm, -, hcase⟩ := h
  have hkept : other.Keeps st.store st₂.store :=
    .of_registry (hbefore.trans (hleave _ _ _ _ hrun))
  obtain ⟨-, -, rfl⟩ | ⟨-, -, rfl⟩ := hcase
  · exact hkept
  · exact hkept.trans (hother _ _ _ hm)

theorem keeps_replaceStruct (s : Store) (old new : StructId) (h : (s.module? m).isSome = true) :
    (enumerations m).Keeps s ((structs m).replace s old new) where
  name := Store.read_modifyModule h Module.name fun _ => rfl
  map := Store.read_modifyModule h Module.enumerations fun _ => rfl
  list := Store.read_modifyModule h (·.enumerations.values) fun _ => rfl
  mark _ _ hw := hw

theorem keeps_replaceEnumeration (s : Store) (old new : EnumId)
    (h : (s.module? m).isSome = true) :
    (structs m).Keeps s ((enumerations m).replace s old new) where
  name := Store.read_modifyModule h Module.name fun _ => rfl
  map := Store.read_modifyModule h Module.structs fun _ => rfl
  list := Store.read_modifyModule h Module.structOrder fun _ => rfl
  mark _ _ hw := hw

theorem Step.structOrder {leave : StructId → VisitM σ (Rewrite StructId)} {x : Succession StructId}
    (hleave : ∀ a, Moves (Visit.KeepsRegistry m) (leave a)) (h : (structs m).Step leave x st st') :
    (st'.store.module m).structOrder =
      (st.store.module m).structOrder.map fun a => if a = x.old then x.new else a := by
  obtain ⟨st₁, r, st₂, hbefore, hrun, hm, -, hcase⟩ := h
  have hkept : (st₂.store.module m).structOrder = (st.store.module m).structOrder :=
    (structs m).list_kept (hbefore.trans (hleave _ _ _ _ hrun))
  obtain ⟨-, hsame, rfl⟩ | ⟨-, -, rfl⟩ := hcase
  · rw [hkept, hsame]
    refine ((List.map_congr_left fun a _ => ?_).trans (List.map_id _)).symm
    split
    · exact Eq.symm ‹_›
    · rfl
  · rw [← hkept]
    exact congrArg Module.structOrder (Store.module_modifyModule hm _)

/-- The declarations that were there have been visited one after the other. Afterwards exactly the
ones that the hook answered with are registered, each under its own name and stamped as it was when
the hook answered. -/
structure Replaced (leave : α → VisitM σ (Rewrite α)) (xs : List (Succession α)) (s t : Store) :
    Prop where
  old : xs.map (·.old) = k.list s
  answered : ∀ x ∈ xs, k.Answered leave x
  registered : NoClash xs → Registered (k.map t) (k.mark t) (xs.map (·.new))
  marked : NoClash xs → ∀ x ∈ xs, k.mark t x.new = some (x.newName, x.stamp)

theorem Replaced.congr {xs : List (Succession α)} {s t u : Store} (h : k.Replaced leave xs s t)
    (hmap : k.map u = k.map t)
    (hmark : NoClash xs → ∀ a ∈ xs.map (·.new), k.mark u a = k.mark t a) :
    k.Replaced leave xs s u where
  old := h.old
  answered := h.answered
  registered hclash := by
    rw [hmap]
    exact (h.registered hclash).congr (hmark hclash)
  marked hclash x hx := by
    rw [hmark hclash _ (List.mem_map_of_mem hx)]
    exact h.marked hclash x hx

theorem Replaced.of_keeps {xs : List (Succession α)} {s s' t t' : Store} (hbefore : k.Keeps s s')
    (h : k.Replaced leave xs s' t) (hafter : k.Keeps t t') : k.Replaced leave xs s t' := by
  have h' : k.Replaced leave xs s t := { h with old := h.old.trans hbefore.list }
  exact h'.congr k hafter.map fun hclash => (h.registered hclash).mark_eq hafter.mark

theorem replaced_of_run {xs : List (Succession α)}
    (hleave : ∀ a, Moves (Visit.KeepsRegistry m) (leave a))
    (hreg : Registered (k.map st.store) (k.mark st.store) (k.list st.store))
    (hold : xs.map (·.old) = k.list st.store) (h : Run (k.Step leave) xs st st') :
    k.Replaced leave xs st.store st'.store := by
  have hsteps : ∀ x st st', k.Step leave x st st' → _ :=
    fun x st st' => k.succeeds_of_step hleave
  have hrun := fun hclash => h.registered [] hsteps (by rwa [hold])
    (fun _ _ _ h => by cases h) hclash
  refine ⟨hold, fun x hx => ?_, fun hclash => (hrun hclash).1, fun hclash => (hrun hclash).2⟩
  obtain ⟨_, _, hstep⟩ := h.of_mem hx
  exact hstep.answered

theorem Replaced.stamped_iff {xs : List (Succession α)} {s t : Store}
    (h : k.Replaced leave xs s t) (hclash : NoClash xs) :
    k.Stamped t ↔ ∀ x ∈ xs, x.stamp = some (t.module m).name := by
  have hreg := h.registered hclash
  have hmarked := h.marked hclash
  constructor
  · intro hstamped x hx
    obtain ⟨key, _, -, hfind⟩ := hreg.filed x.new (List.mem_map_of_mem hx)
    obtain ⟨name, hmark⟩ := hstamped x.new (NameMap.mem_values.2 ⟨key, hfind⟩)
    rw [hmarked x hx, Option.some.injEq, Prod.mk.injEq] at hmark
    exact hmark.2
  · intro hstamps a ha
    obtain ⟨key, hfind⟩ := NameMap.mem_values.1 ha
    obtain ⟨x, hx, rfl⟩ := List.mem_map.1 (hreg.listed key a hfind).1
    exact ⟨x.newName, by rw [hmarked x hx, hstamps x hx]⟩

end Filing

namespace Visitor

variable {σ : Type}

/-- A visitor that leaves names, stamps and the registry of the module alone. In a traversal that
begins with the store, it keeps structures and enumerations or replaces them by others that exist.
-/
structure Replaces (v : Visitor σ) (m : ModuleId) (s : Store) : Prop where
  moves : v.MovesAlong (Visit.KeepsRegistry m)
  struct : ∀ {id st new st'}, s.KeepsMarks st.store →
    (v.leaveStruct id).run st = .ok (.replace new, st') → (st'.store.struct? new).isSome = true
  enumeration : ∀ {id st new st'}, s.KeepsMarks st.store →
    (v.leaveEnum id).run st = .ok (.replace new, st') → (st'.store.enumeration? new).isSome = true
  noneRemoved : ∀ {id st r st'}, (v.leaveEnum id).run st = .ok (r, st') → r ≠ .remove

variable {v : Visitor σ} {m : ModuleId} {s₀ : Store} {st st' : Visit σ} {r : PUnit}

namespace Replaces

variable (hv : v.Replaces m s₀)

include hv

theorem visitStructs_steps (hm : (st.store.module? m).isSome = true)
    (hs : s₀.KeepsMarks st.store) (h : (v.visitStructs m).run st = .ok (r, st')) :
    ((st'.store.module? m).isSome = true ∧ s₀.KeepsMarks st'.store) ∧
      ∃ xs : List (Succession StructId), xs.map (·.old) = (Filing.structs m).list st.store ∧
        Run ((Filing.structs m).Step v.leaveStruct) xs st st' := by
  obtain ⟨s, st₁, hstore, h⟩ := exists_of_bind h
  cases hstore
  refine (Filing.structs m).steps_of_loop (visitStruct_leadsTo hv.moves.walks) hv.moves.leaveStruct
    (fun a st new st' hs hrun => Option.isSome_map.trans (hv.struct hs hrun))
    (fun a st r st' hbody => ?_) hm hs h
  obtain ⟨answer, st₁, hvisit, hrest⟩ := exists_of_bind hbody
  cases answer with
  | keep =>
    cases hrest
    exact ⟨rfl, _, _, hvisit, .inl ⟨rfl, rfl⟩⟩
  | replace new =>
    cases hrest
    exact ⟨rfl, _, _, hvisit, .inr ⟨new, rfl, rfl⟩⟩
  | remove => cases hrest

theorem visitEnumerations_steps (hm : (st.store.module? m).isSome = true)
    (hs : s₀.KeepsMarks st.store) (h : (v.visitEnumerations m).run st = .ok (r, st')) :
    ((st'.store.module? m).isSome = true ∧ s₀.KeepsMarks st'.store) ∧
      ∃ ys : List (Succession EnumId), ys.map (·.old) = (Filing.enumerations m).list st.store ∧
        Run ((Filing.enumerations m).Step v.leaveEnum) ys st st' := by
  obtain ⟨s, st₁, hstore, h⟩ := exists_of_bind h
  cases hstore
  refine (Filing.enumerations m).steps_of_loop (visitEnumeration_leadsTo hv.moves.walks)
    hv.moves.leaveEnum (fun a st new st' hs hrun => Option.isSome_map.trans (hv.enumeration hs hrun))
    (fun a st r st' hbody => ?_) hm hs h
  obtain ⟨answer, st₁, hvisit, hrest⟩ := exists_of_bind hbody
  cases answer with
  | keep =>
    cases hrest
    exact ⟨rfl, _, _, hvisit, .inl ⟨rfl, rfl⟩⟩
  | replace new =>
    cases hrest
    exact ⟨rfl, _, _, hvisit, .inr ⟨new, rfl, rfl⟩⟩
  | remove =>
    obtain ⟨_, -, hleave⟩ := visitEnumeration_leadsTo hv.moves.walks a _ _ _ hvisit
    exact absurd rfl (hv.noneRemoved hleave)

/-- Only the visits of structures and enumerations change what the module knows of them. -/
theorem visitModule_stages {withGenerics : Bool}
    (h : (v.visitModule m withGenerics).run st = .ok (r, st')) :
    ∃ st₁ st₂ st₃, Visit.KeepsRegistry m st st₁ ∧
      (v.visitEnumerations m).run st₁ = .ok (⟨⟩, st₂) ∧
      (v.visitStructs m).run st₂ = .ok (⟨⟩, st₃) ∧ Visit.KeepsRegistry m st₃ st' := by
  have hv := hv.moves.walks
  obtain ⟨s, st₁, hs, h⟩ := exists_of_bind h
  cases hs
  obtain ⟨_, st₁, hbegin, h⟩ := exists_of_bind h
  obtain ⟨_, st₂, henums, h⟩ := exists_of_bind h
  obtain ⟨_, st₃, hstructs, h⟩ := exists_of_bind h
  refine ⟨st₁, st₂, st₃, hv.notice _ _ _ _ hbegin, henums, hstructs, ?_⟩
  refine hv.bind (visitAliases_moves hv) (fun _ => hv.bind (hv.notice _) fun _ =>
    hv.bind (hv.notice _) fun _ => hv.bind (visitGlobals_moves hv) fun _ =>
    hv.bind (hv.notice _) fun _ => ?_) _ _ _ h
  have hrest := hv.bind (visitFunctions_moves hv) fun _ => hv.notice (.programEnd
    (st.store.module m).name)
  cases withGenerics with
  | false => exact hrest
  | true => exact hv.bind (visitGenerics_moves hv) fun _ => hrest

end Replaces

end Visitor

structure Store.ProperlyRegisters (s : Store) (m : ModuleId) : Prop where
  isSome : (s.module? m).isSome = true
  structs : Registered (s.module m).structs s.structMark (s.module m).structOrder
  enumerations : Registered (s.module m).enumerations s.enumMark (s.module m).enumerations.values

def Store.Stamped (s : Store) (m : ModuleId) : Prop :=
  (Filing.structs m).Stamped s ∧ (Filing.enumerations m).Stamped s

namespace Visitor

variable {σ : Type} {v : Visitor σ} {m : ModuleId} {st st' : Visit σ} {r : PUnit}

/-- A visit of a module replaces its structures in their places, and its enumerations. -/
theorem Replaces.visitModule (hv : v.Replaces m st.store) (hm : st.store.ProperlyRegisters m)
    {withGenerics : Bool} (h : (v.visitModule m withGenerics).run st = .ok (r, st')) :
    ∃ xs ys, (Filing.structs m).Replaced v.leaveStruct xs st.store st'.store ∧
      (Filing.enumerations m).Replaced v.leaveEnum ys st.store st'.store ∧
      (NoClash xs → (st'.store.module m).structOrder = xs.map (·.new)) ∧
      (st'.store.module m).name = (st.store.module m).name ∧
      (st'.store.module? m).isSome = true := by
  obtain ⟨st₁, st₂, st₃, hbegin, henums, hstructs, hend⟩ := hv.visitModule_stages h
  have hm₁ : (st₁.store.module? m).isSome = true := hbegin.isSome.trans hm.isSome
  obtain ⟨⟨hm₂, hs₂⟩, ys, hys, hysteps⟩ := hv.visitEnumerations_steps hm₁ hbegin.marks henums
  obtain ⟨⟨hm₃, -⟩, xs, hxs, hxsteps⟩ := hv.visitStructs_steps hm₂ hs₂ hstructs
  have hbegin : st.store.KeepsRegistry m st₁.store := hbegin
  have hend : st₃.store.KeepsRegistry m st'.store := hend
  have hleaveEnum := hv.moves.leaveEnum
  have hleaveStruct := hv.moves.leaveStruct
  -- Each kind is left alone while the other one is visited.
  have hstructs₂ : (Filing.structs m).Keeps st.store st₂.store :=
    (Filing.Keeps.of_registry hbegin).trans <|
      hysteps.keeps (L := fun st st' => (Filing.structs m).Keeps st.store st'.store)
        (fun _ => .refl _) .trans
        fun _ _ _ _ hstep => hstep.keeps _ _ hleaveEnum Filing.keeps_replaceEnumeration
  have henums₃ : (Filing.enumerations m).Keeps st₂.store st'.store :=
    (hxsteps.keeps (L := fun st st' => (Filing.enumerations m).Keeps st.store st'.store)
      (fun _ => .refl _) .trans
      fun _ _ _ _ hstep => hstep.keeps _ _ hleaveStruct Filing.keeps_replaceStruct).trans
        (.of_registry hend)
  have hregEnums : Registered _ _ ((Filing.enumerations m).list st₁.store) :=
    (Filing.Keeps.of_registry hbegin).registered hm.enumerations
  have hregStructs : Registered _ _ ((Filing.structs m).list st₂.store) :=
    hstructs₂.registered hm.structs
  refine ⟨xs, ys, ?_, ?_, fun hclash => ?_, henums₃.name.trans ?_, ?_⟩
  · exact ((Filing.structs m).replaced_of_run hleaveStruct hregStructs hxs
      hxsteps).of_keeps _ hstructs₂ (.of_registry hend)
  · exact ((Filing.enumerations m).replaced_of_run hleaveEnum hregEnums hys
      hysteps).of_keeps _ (.of_registry hbegin) henums₃
  · have hsteps : ∀ x st st', (Filing.structs m).Step v.leaveStruct x st st' → _ :=
      fun x st st' => (Filing.structs m).succeeds_of_step hleaveStruct
    have hlater := hxsteps.later hsteps (by rwa [hxs]) hclash
    have horder := hxsteps.order [] (fun _ _ _ hstep => hstep.structOrder hleaveStruct) hxs.symm
      (by rw [hxs]; exact hregStructs.nodup) (by simp) hlater
    exact ((Filing.structs m).list_kept hend).trans horder
  · exact hstructs₂.name
  · exact hend.isSome.trans hm₃

end Visitor

end Frontend
