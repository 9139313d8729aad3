import Frontend.Proofs.Registration.Scripts
import Frontend.Traversal.Whole

/-!
# The registry of a program after a walk

What is added to a module is filed under its name, listed once and stamped with the module. A walk
that replaces structures and enumerations leaves a module that is registered as before, with every
structure in the place of the one that it replaced. It does not stamp the replacements: the module
has only stamped structures and enumerations afterwards exactly if all answers were stamped with its
name.
-/

namespace Frontend

section Adding

variable {s : Store} {m : ModuleId}

/-- The values of a map are an order of what it registers. -/
theorem Registered.values {α : Type} {map : NameMap α} {mark : α → Mark} {ids : List α}
    (h : Registered map mark ids) : Registered map mark map.values :=
  .of_find? fun name a ha => (h.listed name a ha).2

theorem Store.structMark_modifyStruct (id other : StructId) (g : Struct → Struct) :
    (s.modifyStruct id g).structMark other =
      if other = id then (s.struct? id).map fun x => (g x).mark else s.structMark other := by
  rw [structMark, struct?, modifyStruct, Table.get?_modify]
  split
  · rename_i same
    rw [same, Option.map_map]
    rfl
  · rfl

theorem Store.enumMark_modifyEnumeration (id other : EnumId) (g : Enumeration → Enumeration) :
    (s.modifyEnumeration id g).enumMark other =
      if other = id then (s.enumeration? id).map fun x => (g x).mark else s.enumMark other := by
  rw [enumMark, enumeration?, modifyEnumeration, Table.get?_modify]
  split
  · rename_i same
    rw [same, Option.map_map]
    rfl
  · rfl

/-- A declaration is added and stamped. -/
theorem Filing.added {α : Type} (k : Filing m α) {t : Store} {a : α} {name : String}
    {stamp : Option String} (hs : Registered (k.map s) (k.mark s) (k.list s))
    (hfree : (k.map s).find? name = none) (hold : k.mark s a = some (name, stamp))
    (hmap : k.map t = (k.map s).insert name a) (hname : (t.module m).name = (s.module m).name)
    (hnew : k.mark t a = some (name, some (s.module m).name))
    (hmark : ∀ b, b ≠ a → k.mark t b = k.mark s b) :
    Registered (k.map t) (k.mark t) (k.list s ++ [a]) ∧ (k.Stamped s → k.Stamped t) := by
  rw [hmap]
  refine ⟨hs.insert hfree hold hnew hmark, fun hstamped b hb => ?_⟩
  rw [hname]
  by_cases same : b = a
  · exact ⟨name, by rw [same, hnew]⟩
  · rw [hmap] at hb
    obtain ⟨key, hkey⟩ := hstamped b ((NameMap.mem_values_insert hb).resolve_left same)
    exact ⟨key, by rw [hmark b same, hkey]⟩

namespace Store.ProperlyRegisters

/-- A module without structures and enumerations has nothing to register. -/
theorem of_empty (hm : (s.module? m).isSome = true) (hstructs : (s.module m).structs = .empty)
    (horder : (s.module m).structOrder = []) (henums : (s.module m).enumerations = .empty) :
    s.ProperlyRegisters m ∧ s.Stamped m := by
  have hempty {α : Type} (mark : α → Mark) : Registered .empty mark [] := by
    refine ⟨nofun, fun name a h => ?_, .nil⟩
    rw [NameMap.find?_empty] at h
    cases h
  refine ⟨⟨hm, ?_, ?_⟩, fun a (ha : a ∈ (s.module m).structs.values) => ?_,
    fun a (ha : a ∈ (s.module m).enumerations.values) => ?_⟩
  · rw [hstructs, horder]
    exact hempty _
  · rw [henums]
    exact hempty _
  · rw [hstructs] at ha
    cases ha
  · rw [henums] at ha
    cases ha

/-- A structure that is added, or refused, leaves a registry as it should be. -/
theorem registerStruct (h : s.ProperlyRegisters m) {id : StructId}
    (hid : (s.struct? id).isSome = true) :
    (s.registerStruct m id).2.ProperlyRegisters m ∧
      (s.Stamped m → (s.registerStruct m id).2.Stamped m) := by
  obtain ⟨x, hx⟩ := Option.isSome_iff_exists.1 hid
  unfold Store.registerStruct
  rw [hx]
  dsimp only [Option.map_some, Option.getD_some]
  split
  · exact ⟨h, fun hstamped => hstamped⟩
  rename_i hfree
  have hfree : (s.module m).structs.find? x.name = none := by
    simpa only [NameMap.contains, Option.not_isSome_iff_eq_none] using hfree
  let stamp (y : Struct) : Struct := { y with module? := some (s.module m).name }
  let file (y : Module) : Module :=
    { y with structs := y.structs.insert x.name id, structOrder := y.structOrder ++ [id] }
  change Store.ProperlyRegisters ((s.modifyStruct id stamp).modifyModule m file) m ∧
    (_ → Store.Stamped ((s.modifyStruct id stamp).modifyModule m file) m)
  have hsome : ((s.modifyStruct id stamp).module? m).isSome = true := h.isSome
  have hmodule : ((s.modifyStruct id stamp).modifyModule m file).module m = file (s.module m) :=
    Store.module_modifyModule hsome file
  have hread {β : Type} (read : Module → β) (h : ∀ y, read (file y) = read y) :
      read (((s.modifyStruct id stamp).modifyModule m file).module m) = read (s.module m) :=
    Store.read_modifyModule hsome read h
  have hothers : (Filing.enumerations m).Keeps s ((s.modifyStruct id stamp).modifyModule m file) :=
    ⟨hread Module.name fun _ => rfl, hread Module.enumerations fun _ => rfl,
      hread (·.enumerations.values) fun _ => rfl, fun _ _ hw => hw⟩
  have hmark (other : StructId) : (s.modifyStruct id stamp).structMark other =
      if other = id then some (x.name, some (s.module m).name) else s.structMark other := by
    rw [structMark_modifyStruct, hx]
    rfl
  have hadded := (Filing.structs m).added h.structs hfree (congrArg (·.map Struct.mark) hx)
    (congrArg Module.structs hmodule) (hread Module.name fun _ => rfl)
    ((hmark id).trans (if_pos rfl)) fun other hother => (hmark other).trans (if_neg hother)
  have horder : (((s.modifyStruct id stamp).modifyModule m file).module m).structOrder =
    (s.module m).structOrder ++ [id] := congrArg Module.structOrder hmodule
  refine ⟨⟨(Store.isSome_modifyModule _ m file).trans hsome, ?_,
    hothers.registered h.enumerations⟩, fun hs => ⟨hadded.2 hs.1, hothers.stamped hs.2⟩⟩
  rw [horder]
  exact hadded.1

/-- An enumeration that is added, or refused, leaves a registry as it should be. -/
theorem registerEnumeration (h : s.ProperlyRegisters m) {id : EnumId}
    (hid : (s.enumeration? id).isSome = true) :
    (s.registerEnumeration m id).2.ProperlyRegisters m ∧
      (s.Stamped m → (s.registerEnumeration m id).2.Stamped m) := by
  obtain ⟨e, he⟩ := Option.isSome_iff_exists.1 hid
  unfold Store.registerEnumeration
  rw [he]
  dsimp only [Option.map_some, Option.getD_some]
  split
  · exact ⟨h, fun hstamped => hstamped⟩
  rename_i hfree
  have hfree : (s.module m).enumerations.find? e.name = none := by
    simpa only [NameMap.contains, Option.not_isSome_iff_eq_none] using hfree
  let stamp (y : Enumeration) : Enumeration := { y with module? := some (s.module m).name }
  let file (y : Module) : Module := { y with enumerations := y.enumerations.insert e.name id }
  change Store.ProperlyRegisters ((s.modifyEnumeration id stamp).modifyModule m file) m ∧
    (_ → Store.Stamped ((s.modifyEnumeration id stamp).modifyModule m file) m)
  have hsome : ((s.modifyEnumeration id stamp).module? m).isSome = true := h.isSome
  have hmodule : ((s.modifyEnumeration id stamp).modifyModule m file).module m =
    file (s.module m) := Store.module_modifyModule hsome file
  have hread {β : Type} (read : Module → β) (h : ∀ y, read (file y) = read y) :
      read (((s.modifyEnumeration id stamp).modifyModule m file).module m) = read (s.module m) :=
    Store.read_modifyModule hsome read h
  have hothers : (Filing.structs m).Keeps s ((s.modifyEnumeration id stamp).modifyModule m file) :=
    ⟨hread Module.name fun _ => rfl, hread Module.structs fun _ => rfl,
      hread Module.structOrder fun _ => rfl, fun _ _ hw => hw⟩
  have hmark (other : EnumId) : (s.modifyEnumeration id stamp).enumMark other =
      if other = id then some (e.name, some (s.module m).name) else s.enumMark other := by
    rw [enumMark_modifyEnumeration, he]
    rfl
  have hadded := (Filing.enumerations m).added h.enumerations hfree
    (congrArg (·.map Enumeration.mark) he) (congrArg Module.enumerations hmodule)
    (hread Module.name fun _ => rfl) ((hmark id).trans (if_pos rfl))
    fun other hother => (hmark other).trans (if_neg hother)
  exact ⟨⟨(Store.isSome_modifyModule _ m file).trans hsome, hothers.registered h.structs,
    hadded.1.values⟩, fun hs => ⟨hothers.stamped hs.1, hadded.2 hs.2⟩⟩

end Store.ProperlyRegisters

end Adding

namespace Program

variable {p : Program} {m : ModuleId}

theorem structMark_collect (h : m ∈ p.library) {id : StructId}
    (hid : id ∈ (p.store.module m).structs.values) :
    p.collect.store.structMark id = p.store.structMark id := by
  have hsame : p.collect.store.struct? id = p.store.struct? id :=
    Store.struct?_collect (List.mem_append_left _ h) hid
  exact congrArg (·.map Struct.mark) hsame

theorem enumMark_collect (h : m ∈ p.library) {id : EnumId}
    (hid : id ∈ (p.store.module m).enumerations.values) :
    p.collect.store.enumMark id = p.store.enumMark id := by
  have hsame : p.collect.store.enumeration? id = p.store.enumeration? id :=
    Store.enumeration?_collect (List.mem_append_left _ h) hid
  exact congrArg (·.map Enumeration.mark) hsame

theorem walk_run {σ : Type} {v : Visitor σ} {p p' : Program} {user user' : σ} {withGenerics : Bool}
    (h : (Program.walk v user withGenerics).run p = .ok (user', p')) :
    ∃ st, (v.visitModule p.this withGenerics).run ⟨p.store, user⟩ = .ok (⟨⟩, st) ∧
      p' = (p.inStore st.store).collect := by
  obtain ⟨_, _, hget, h⟩ := exists_of_bind h
  cases hget
  obtain ⟨⟨⟨⟩, _⟩, p₁, hvisit, h⟩ := exists_of_bind h
  obtain ⟨_, _, hget, hvisit⟩ := exists_of_bind hvisit
  cases hget
  cases hrun : (v.visitModule p.this withGenerics).run ⟨p.store, user⟩ with
  | error fault =>
    simp only [hrun] at hvisit
    cases hvisit
  | ok r =>
    simp only [hrun] at hvisit
    cases hvisit
    cases h
    exact ⟨r.2, rfl, rfl⟩

/-- A walk replaces structures in their places, and enumerations, and all of them are registered
properly. They are stamped with the module exactly if they were when they were put in. -/
theorem walk_replaces {σ : Type} {v : Visitor σ} {p p' : Program} {user user' : σ}
    {withGenerics : Bool} (hv : v.Replaces p.this p.store) (hthis : p.this ∈ p.library)
    (hp : p.store.ProperlyRegisters p.this)
    (hrun : (Program.walk v user withGenerics).run p = .ok (user', p')) :
    ∃ xs ys, (Filing.structs p.this).Replaced v.leaveStruct xs p.store p'.store ∧
      (Filing.enumerations p.this).Replaced v.leaveEnum ys p.store p'.store ∧
      (NoClash xs → NoClash ys →
        p'.store.ProperlyRegisters p.this ∧
        (p'.store.module p.this).structOrder = xs.map (·.new) ∧
        (p'.store.Stamped p.this ↔
          (∀ x ∈ xs, x.stamp = some (p.store.module p.this).name) ∧
            ∀ y ∈ ys, y.stamp = some (p.store.module p.this).name) ∧
        (∀ x ∈ xs, ∃ d, p'.store.struct? x.new = some d ∧
          d.mangledName = qualified x.stamp x.newName) ∧
        ∀ y ∈ ys, ∃ e, p'.store.enumeration? y.new = some e ∧
          e.mangledName = qualified y.stamp y.newName ++ "#" ++ e.base.name) := by
  obtain ⟨st, hvisit, hend⟩ := walk_run hrun
  obtain ⟨xs, ys, hxs, hys, horder, hname, hsome⟩ := Visitor.Replaces.visitModule hv hp hvisit
  -- The module is held by the library, so the collection leaves all that it registers.
  have hmodule : p'.store.module p.this = st.store.module p.this := by
    rw [hend]
    exact module_collect (p := p.inStore st.store) hthis
  have hthere : (p'.store.module? p.this).isSome = true := by
    rw [hend, ← hsome]
    exact congrArg Option.isSome (Store.module?_collect (List.mem_append_left _ hthis))
  have hxs : (Filing.structs p.this).Replaced v.leaveStruct xs p.store p'.store := by
    refine hxs.congr _ (congrArg Module.structs hmodule) fun hclash id hid => ?_
    obtain ⟨key, -, -, hfind⟩ := (hxs.registered hclash).filed id hid
    have hmem : id ∈ (st.store.module p.this).structs.values := NameMap.mem_values.2 ⟨key, hfind⟩
    have hkept := structMark_collect (p := p.inStore st.store) hthis hmem
    rwa [← hend] at hkept
  have hys : (Filing.enumerations p.this).Replaced v.leaveEnum ys p.store p'.store := by
    refine hys.congr _ (congrArg Module.enumerations hmodule) fun hclash id hid => ?_
    obtain ⟨key, -, -, hfind⟩ := (hys.registered hclash).filed id hid
    have hmem : id ∈ (st.store.module p.this).enumerations.values :=
      NameMap.mem_values.2 ⟨key, hfind⟩
    have hkept := enumMark_collect (p := p.inStore st.store) hthis hmem
    rwa [← hend] at hkept
  refine ⟨xs, ys, hxs, hys, fun hclash hclash' => ?_⟩
  have horder := (congrArg Module.structOrder hmodule).trans (horder hclash)
  have hname : (p'.store.module p.this).name = (p.store.module p.this).name :=
    (congrArg Module.name hmodule).trans hname
  refine ⟨⟨hthere, ?_, (hys.registered hclash').values⟩, horder, ?_, fun x hx => ?_,
    fun y hy => ?_⟩
  · rw [horder]
    exact hxs.registered hclash
  · rw [← hname]
    exact and_congr (hxs.stamped_iff _ hclash) (hys.stamped_iff _ hclash')
  · obtain ⟨d, hd, hmark⟩ := Option.map_eq_some_iff.1 (hxs.marked hclash x hx)
    have hname : d.name = x.newName := congrArg Prod.fst hmark
    have hstamp : d.module? = x.stamp := congrArg Prod.snd hmark
    exact ⟨d, hd, by rw [Struct.mangledName, hname, hstamp]⟩
  · obtain ⟨e, he, hmark⟩ := Option.map_eq_some_iff.1 (hys.marked hclash' y hy)
    have hname : e.name = y.newName := congrArg Prod.fst hmark
    have hstamp : e.module? = y.stamp := congrArg Prod.snd hmark
    exact ⟨e, he, by rw [Enumeration.mangledName, hname, hstamp]⟩

/-- A module with a structure `S`, and a structure `T` of no module that the surroundings hold. -/
def swapping (stamp : Option String) : Program where
  store := (Store.registerStruct
    { structs := { slots := #[some { name := "S" }, some { name := "T", module? := stamp }] }
      modules := { slots := #[some { name := "m" }] } } ⟨0⟩ ⟨0⟩).2
  library := [⟨0⟩]
  this := ⟨0⟩
  outside := { structs := [⟨1⟩] }

def swapStructs : Script where
  rules := [{ hook := "visit_structure", subject? := some "S", action := .struct ⟨1⟩ }]

theorem swapping_registers (stamp : Option String) :
    (swapping stamp).store.ProperlyRegisters ⟨0⟩ ∧ (swapping stamp).store.Stamped ⟨0⟩ := by
  obtain ⟨hproper, hstamped⟩ := Store.ProperlyRegisters.of_empty
    (s := { structs := { slots := #[some { name := "S" }, some { name := "T", module? := stamp }] }
            modules := { slots := #[some { name := "m" }] } })
    (m := ⟨0⟩) rfl rfl rfl rfl
  exact (hproper.registerStruct rfl).imp_right fun h => h hstamped

theorem swapStructs_replaces (stamp : Option String) :
    swapStructs.visitor.Replaces ⟨0⟩ (swapping stamp).store := by
  refine swapStructs.replaces_visitor ⟨0⟩ _ (fun r hr id h => ?_) (fun r hr id h => ?_)
    (fun r hr _ => ?_)
  all_goals cases List.mem_singleton.1 hr
  · cases h
    rfl
  · cases h
  · nofun

def Swapped (stamp : Option String) (p : Program) : Prop :=
  (p.store.module ⟨0⟩).structs.find? "T" = some ⟨1⟩ ∧ p.store.structMark ⟨1⟩ = some ("T", stamp)

instance (stamp : Option String) (p : Program) : Decidable (Swapped stamp p) :=
  inferInstanceAs (Decidable (_ ∧ _))

theorem walk_swapping (stamp : Option String)
    (h : (match (Program.walk swapStructs.visitor {} true).run (swapping stamp) with
      | .ok (_, p') => decide (Swapped stamp p')
      | .error _ => false) = true) :
    Ends (Program.walk swapStructs.visitor {} true) (swapping stamp) fun _ p' => Swapped stamp p' := by
  split at h
  · rename_i p' hrun
    exact ⟨_, p', hrun, of_decide_eq_true h⟩
  · cases h

theorem walk_replaces_swapping :
    Ends (Program.walk swapStructs.visitor {} true) (swapping (some "m")) fun _ p' =>
      p'.store.ProperlyRegisters ⟨0⟩ ∧ (p'.store.module ⟨0⟩).structOrder = [⟨1⟩] ∧
        p'.store.Stamped ⟨0⟩ := by
  obtain ⟨user', p', hrun, hfind, hmark⟩ := walk_swapping (some "m") (by decide +kernel)
  refine ⟨user', p', hrun, ?_⟩
  obtain ⟨xs, ys, hxs, hys, h⟩ := walk_replaces (swapStructs_replaces _) (.head _)
    (swapping_registers _).1 hrun
  obtain ⟨x, rfl, hold⟩ := List.map_eq_singleton_iff.1 hxs.old
  obtain rfl : ys = [] := List.map_eq_nil_iff.1 hys.old
  have hclash : NoClash [x] := List.pairwise_singleton _ x
  have hnew : x.new = ⟨1⟩ :=
    (List.mem_singleton.1 ((hxs.registered hclash).listed "T" _ hfind).1).symm
  have hstamp : x.stamp = some "m" := by
    have hmarked : p'.store.structMark x.new = some (x.newName, x.stamp) :=
      hxs.marked hclash x (.head _)
    rw [hnew, hmark, Option.some.injEq, Prod.mk.injEq] at hmarked
    exact hmarked.2.symm
  obtain ⟨hproper, horder, hstamped, -⟩ := h hclash .nil
  refine ⟨hproper, horder.trans (congrArg (fun id => [id]) hnew), hstamped.2 ⟨fun y hy => ?_, nofun⟩⟩
  rw [List.mem_singleton.1 hy]
  exact hstamp

/-- A replacement of no module belongs to no module afterwards either. -/
theorem walk_unstamped_swapping :
    (swapping none).store.ProperlyRegisters ⟨0⟩ ∧ (swapping none).store.Stamped ⟨0⟩ ∧
      swapStructs.visitor.Replaces ⟨0⟩ (swapping none).store ∧
      Ends (Program.walk swapStructs.visitor {} true) (swapping none) fun _ p' =>
        Swapped none p' ∧ ¬ p'.store.Stamped ⟨0⟩ := by
  obtain ⟨hproper, hstamped⟩ := swapping_registers none
  have hends := walk_swapping none (by decide +kernel)
  refine ⟨hproper, hstamped, swapStructs_replaces none, hends.mono ?_⟩
  intro _ p' hswapped
  refine ⟨hswapped, fun hstamped => ?_⟩
  obtain ⟨name, hname⟩ := hstamped.1 ⟨1⟩ (NameMap.mem_values.2 ⟨"T", hswapped.1⟩)
  have hmark : p'.store.structMark ⟨1⟩ = some ("T", none) := hswapped.2
  cases hmark.symm.trans hname

end Program

end Frontend
