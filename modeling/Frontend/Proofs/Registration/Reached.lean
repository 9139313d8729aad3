import Frontend.Proofs.Registration.Stamping

/-!
# What a module finds under the names of its functions

A module that starts without functions gets declarations and functions, no function before a
declaration that its argument types link to, and may be renamed at any time. It then finds a
function under its mangled name, and refuses another of that name, exactly unless the function is
stale: the last renaming changed the signature of the function after filing it, and the function was
not added anew since.
-/

namespace Frontend.Store

variable {s t : Store} {m : ModuleId} {x y : Module} {p : Ty → Bool} {id : FunctionId}
  {shelf : Shelf} {stale : Shelf → FunctionId → Prop} {f : Function}

def argumentsLink (s : Store) (m : ModuleId) (p : Ty → Bool) : Bool :=
  ((s.module m).functions.values ++ (s.module m).generics.values).any fun id =>
    (s.function? id).any (s.argumentLinks p)

/-- What can happen to a module. A renaming drops what neither the surroundings nor another object
owns afterwards. -/
inductive Change where
  | struct (id : StructId)
  | enumeration (id : EnumId)
  | annot (a : Annot)
  | function (shelf : Shelf) (id : FunctionId)
  | rename (name : String) (outside : Holdings)

namespace Change

def run (s : Store) (m : ModuleId) : Change → Store
  | struct id => (s.registerStruct m id).2
  | enumeration id => (s.registerEnumeration m id).2
  | annot a => (s.registerAnnot m a).2
  | function shelf id => (s.registerOn shelf m id).2
  | rename name outside => (s.renameModule m name).collect outside

/-- No function comes before a declaration that its argument types link to, only functions that
exist are added, and the module outlives a renaming. -/
def Allowed (s : Store) (m : ModuleId) : Change → Prop
  | struct id => (s.registerStruct m id).1 = true →
      s.argumentsLink m (·.struct? == some id) = false
  | enumeration id => (s.registerEnumeration m id).1 = true →
      s.argumentsLink m (·.enum? == some id) = false
  | annot a => (s.registerAnnot m a).1 = true →
      s.argumentsLink m (·.annot? == some s.annots.nextId) = false
  | function _ id => s.functions.isAlive id = true
  | rename _ outside => m ∈ outside.modules

/-- Which functions are stale after a change. A renaming decides it anew, by the signatures before
and after, and a function that is added is not stale. -/
def staleAfter (s : Store) (m : ModuleId) (before : Shelf → FunctionId → Prop) (c : Change) :
    Shelf → FunctionId → Prop :=
  match c with
  | function shelf id => fun shelf' id' =>
      before shelf' id' ∧ ¬ ((s.registerOn shelf m id).1 = true ∧ shelf' = shelf ∧ id' = id)
  | rename .. => fun _ id' =>
      ∃ f, s.function? id' = some f ∧ (c.run s m).signature f ≠ s.signature f
  | _ => before

end Change

/-- The states that a module without functions comes to, with the stale functions of each. -/
inductive Reached (m : ModuleId) : Store → (Shelf → FunctionId → Prop) → Prop
  | start {s : Store} {x : Module} (hx : s.module? m = some x)
      (hempty : ∀ shelf : Shelf, shelf.of x = .empty) : Reached m s fun _ _ => False
  | change {s : Store} {stale : Shelf → FunctionId → Prop} (h : Reached m s stale) (c : Change)
      (hc : c.Allowed s m) : Reached m (c.run s m) (c.staleAfter s m stale)

/-- Every function on a shelf exists, is stamped with the module, and is found under its name in the
module unless it is stale. -/
structure Files (s : Store) (m : ModuleId) (x : Module) (stale : Shelf → FunctionId → Prop) :
    Prop where
  module? : s.module? m = some x
  function? (shelf : Shelf) (id : FunctionId) : id ∈ (shelf.of x).values →
    ∃ f, s.function? id = some f ∧ f.module? = some x.name
  find? (shelf : Shelf) (id : FunctionId) : id ∈ (shelf.of x).values →
    ((shelf.of x).find? (s.nameIn x.name id) = some id ↔ ¬ stale shelf id)

namespace Files

theorem start (hx : s.module? m = some x) (hempty : ∀ shelf : Shelf, shelf.of x = .empty) :
    s.Files m x fun _ _ => False := by
  have none (shelf : Shelf) (id : FunctionId) : id ∉ (shelf.of x).values := by
    rw [hempty shelf]
    exact List.not_mem_nil
  exact ⟨hx, fun shelf id hid => absurd hid (none shelf id),
    fun shelf id hid => absurd hid (none shelf id)⟩

theorem mem_overloads (hid : id ∈ (shelf.of x).values) :
    id ∈ x.functions.values ++ x.generics.values := by
  cases shelf with
  | functions => exact List.mem_append_left _ hid
  | generics => exact List.mem_append_right _ hid

/-- A declaration that no function of the module links to leaves the functions where they are. -/
theorem declare (h : s.Files m x stale) (hd : s.Declares m p t)
    (hlink : s.argumentsLink m p = false) : ∃ y, t.Files m y stale := by
  obtain ⟨y, hy, hname, hshelf⟩ := hd.module? x h.module?
  have hfun : t.function? = s.function? := by
    funext id
    rw [Store.function?, Store.function?, hd.functions]
  have hsig (shelf : Shelf) (id : FunctionId) (hid : id ∈ (shelf.of x).values) (f : Function)
      (hf : s.function? id = some f) : t.signature f = s.signature f := by
    simp only [argumentsLink, module_of h.module?, List.any_eq_false, Bool.not_eq_true] at hlink
    have hall := hlink id (mem_overloads hid)
    rw [hf, Option.any_some] at hall
    exact signature_congr (fun a _ => hd.type a) hd.mangledBase hall
  refine ⟨y, hy, fun shelf id hid => ?_, fun shelf id hid => ?_⟩
  · rw [hshelf] at hid
    rw [hfun, hname]
    exact h.function? shelf id hid
  · rw [hshelf] at hid
    obtain ⟨f, hf, -⟩ := h.function? shelf id hid
    have same : t.nameIn y.name id = s.nameIn x.name id := by
      rw [nameIn_of (hfun ▸ hf), nameIn_of hf, hname, hsig shelf id hid f hf]
    rw [hshelf, same]
    exact h.find? shelf id hid

/-- A registration of a declaration that refuses, or that no function links to. -/
theorem declared (h : s.Files m x stale) {r : Bool × Store}
    (hr : r = (false, s) ∨ ∃ t, r = (true, t) ∧ s.Declares m p t)
    (hlink : r.1 = true → s.argumentsLink m p = false) : ∃ y, r.2.Files m y stale := by
  rcases hr with rfl | ⟨t, rfl, hd⟩
  · exact ⟨x, h⟩
  · exact h.declare hd (hlink rfl)

theorem function?_of_stamps (h : s.Files m x stale) {ids : List FunctionId}
    (hs : s.Stamps x.name ids t) (hid : id ∈ (shelf.of x).values) :
    ∃ f, t.function? id = some f ∧ f.module? = some x.name := by
  obtain ⟨f, hf, hm⟩ := h.function? shelf id hid
  rw [hs.function?, hf]
  split
  · exact ⟨f.stamped x.name, rfl, rfl⟩
  · exact ⟨f, rfl, hm⟩

/-- A function whose name is taken is stamped, and the shelves stay as they are. -/
theorem refused (h : s.Files m x stale) (shelf : Shelf) {other : FunctionId}
    (taken : (shelf.of x).find? (s.nameIn x.name id) = some other) :
    (s.registerOn shelf m id).2.Files m x ((Change.function shelf id).staleAfter s m stale) := by
  have hs := s.stamps_registerOn shelf m id
  rw [module_of h.module?] at hs
  have he := registerOn_of_taken (module_of h.module?) taken
  have stays (shelf' : Shelf) (id' : FunctionId) :
      (Change.function shelf id).staleAfter s m stale shelf' id' ↔ stale shelf' id' := by
    simp [Change.staleAfter, he]
  refine ⟨by rw [he]; exact h.module?, fun shelf' id' hid' => ?_, fun shelf' id' hid' => ?_⟩
  · exact h.function?_of_stamps hs hid'
  · rw [hs.nameIn, stays]
    exact h.find? shelf' id' hid'

/-- A function whose name is free is filed under it, and is in the way of no other function. -/
theorem added (h : s.Files m x stale) (shelf : Shelf) (hid : s.functions.isAlive id = true)
    (free : (shelf.of x).find? (s.nameIn x.name id) = none) :
    (s.registerOn shelf m id).2.Files m (shelf.put ((shelf.of x).insert (s.nameIn x.name id) id) x)
      ((Change.function shelf id).staleAfter s m stale) := by
  have hs := s.stamps_registerOn shelf m id
  rw [module_of h.module?] at hs
  have hx : (s.modifyFunction id (·.stamped x.name)).module? m = some x := h.module?
  have he := registerOn_of_free (module_of h.module?) free
  have stays (shelf' : Shelf) (id' : FunctionId) :
      (Change.function shelf id).staleAfter s m stale shelf' id' ↔
        stale shelf' id' ∧ ¬ (shelf' = shelf ∧ id' = id) := by
    simp [Change.staleAfter, he]
  have hy := module?_modifyModule hx fun x' =>
    shelf.put ((shelf.of x').insert (s.nameIn x.name id) id) x'
  refine ⟨by rw [he]; exact hy, fun shelf' id' hid' => ?_, fun shelf' id' hid' => ?_⟩
  · rw [Shelf.name_put]
    by_cases new : id' = id
    · subst new
      obtain ⟨f, hf⟩ := Option.isSome_iff_exists.1 hid
      have hf : s.function? id' = some f := hf
      exact ⟨f.stamped x.name, by rw [hs.function?, if_pos (.head _), hf, Option.map_some], rfl⟩
    · exact h.function?_of_stamps hs (Shelf.mem_values_of_put new hid')
  · rw [Shelf.name_put, hs.nameIn, stays]
    by_cases here : shelf' = shelf
    · subst here
      rw [Shelf.of_put_self] at hid' ⊢
      by_cases new : id' = id
      · subst new
        simp
      · have old := (NameMap.mem_values_insert hid').resolve_left new
        rw [NameMap.find?_insert_of_free free new, h.find? shelf' id' old]
        simp [new]
    · rw [Shelf.of_put_of_ne here] at hid' ⊢
      rw [h.find? shelf' id' hid']
      simp [here]

theorem function (h : s.Files m x stale) (shelf : Shelf) (hid : s.functions.isAlive id = true) :
    ∃ y, (s.registerOn shelf m id).2.Files m y
      ((Change.function shelf id).staleAfter s m stale) := by
  cases hkey : (shelf.of x).find? (s.nameIn x.name id) with
  | some other => exact ⟨x, h.refused shelf hkey⟩
  | none => exact ⟨_, h.added shelf hid hkey⟩

theorem rename (h : s.Files m x stale) (name : String) {outside : Holdings}
    (hm : m ∈ outside.modules) :
    ∃ y, ((s.renameModule m name).collect outside).Files m y
      ((Change.rename name outside).staleAfter s m stale) := by
  obtain ⟨⟨y, hy, hname, hfiled⟩, hfun, -⟩ := renamed_renameModule h.module? name
  have hyt : ((s.renameModule m name).collect outside).module? m = some y := by
    rw [module?_collect hm, hy]
  -- A function that is filed was filed before, and survives with a new stamp.
  have survives (shelf : Shelf) (id : FunctionId) (hid : id ∈ (shelf.of y).values) :
      ∃ f, s.function? id = some f ∧
        ((s.renameModule m name).collect outside).function? id = some (f.stamped name) := by
    obtain ⟨key, hkey⟩ := NameMap.mem_values.1 hid
    have old := (hfiled shelf key id hkey).1
    obtain ⟨f, hf, -⟩ := h.function? shelf id old
    refine ⟨f, hf, ?_⟩
    have hmem : id ∈ ((s.renameModule m name).module m).functions.values ++
        ((s.renameModule m name).module m).generics.values := by
      rw [module_of hy]
      exact mem_overloads hid
    rw [function?_collect hm hmem, hfun id, if_pos (mem_overloads old), hf, Option.map_some]
  generalize ht : (s.renameModule m name).collect outside = t at hyt survives
  refine ⟨y, hyt, fun shelf id hid => ?_, fun shelf id hid => ?_⟩
  · obtain ⟨f, -, hf⟩ := survives shelf id hid
    exact ⟨f.stamped name, hf, by rw [hname]; rfl⟩
  · obtain ⟨f, hf, hft⟩ := survives shelf id hid
    have hkey : ∀ key, (shelf.of y).find? key = some id →
        key = modulePrefix (some name) ++ s.signature f := fun key h => by
      rw [(hfiled shelf key id h).2, nameIn_of hf]
    have stays : (Change.rename name outside).staleAfter s m stale shelf id ↔
        t.signature f ≠ s.signature f := by
      simp only [Change.staleAfter, Change.run, ht, hf, Option.some.injEq, exists_eq_left']
    rw [stays, not_not, hname, nameIn_of hft, signature_stamped]
    constructor
    · intro found
      exact (String.append_right_inj _).1 (hkey _ found)
    · intro same
      obtain ⟨key, found⟩ := NameMap.mem_values.1 hid
      rwa [hkey key found, ← same] at found

end Files

theorem Reached.files (h : Reached m s stale) : ∃ x, s.Files m x stale := by
  induction h with
  | start hx hempty => exact ⟨_, .start hx hempty⟩
  | change h c hc ih =>
    obtain ⟨x, ih⟩ := ih
    cases c with
    | struct id => exact ih.declared (registerStruct_spec _ m id) hc
    | enumeration id => exact ih.declared (registerEnumeration_spec _ m id) hc
    | annot a => exact ih.declared (registerAnnot_spec _ m a) hc
    | function shelf id => exact ih.function shelf hc
    | rename name outside => exact ih.rename name hc

/-- The function is found on the shelf of the module under its mangled name, and every function that
would get the same name is refused. -/
structure FoundByName (s : Store) (m : ModuleId) (shelf : Shelf) (id : FunctionId) (f : Function) :
    Prop where
  found : (shelf.of (s.module m)).find? (s.mangledFunction f) = some id
  refuses (other : FunctionId) (g : Function) : s.function? other = some g →
    s.mangledFunction (g.stamped (s.module m).name) = s.mangledFunction f →
    (s.registerOn shelf m other).1 = false

/-- A function of a module is found by its name, and no other gets that name, exactly unless the
function is stale. -/
theorem Reached.foundByName_iff (h : Reached m s stale)
    (hid : id ∈ (shelf.of (s.module m)).values) :
    ∃ f, s.function? id = some f ∧ (s.FoundByName m shelf id f ↔ ¬ stale shelf id) := by
  obtain ⟨x, hfiles⟩ := h.files
  have hx := module_of hfiles.module?
  rw [hx] at hid
  obtain ⟨f, hf, hm⟩ := hfiles.function? shelf id hid
  have hname : s.mangledFunction f = s.nameIn x.name id := by
    rw [nameIn_of hf, mangledFunction_eq, hm]
  refine ⟨f, hf, ?_⟩
  rw [← hfiles.find? shelf id hid]
  constructor
  · intro hfound
    rw [← hname, ← hx]
    exact hfound.found
  · intro hfound
    refine ⟨by rw [hx, hname, hfound], fun other g hg hsame => ?_⟩
    rw [hx, mangledFunction_stamped, hname, ← nameIn_of hg] at hsame
    rw [registerOn_of_taken hx (hsame ▸ hfound)]

/-- An empty module, a structure and two functions of one name with an argument of its type. -/
def twins : Store where
  functions := { slots := #[some { name := "f", args := [⟨0⟩] },
    some { name := "f", args := [⟨1⟩] }] }
  structs := { slots := #[some { name := "S", fields := [{ name := "x", type := .ofBase .int }] }] }
  vars := { slots := #[some { name := "a", type := .struct ⟨0⟩ },
    some { name := "b", type := .struct ⟨0⟩ }] }
  modules := { slots := #[some { name := "old" }] }

def twinAdded : Store :=
  (Change.function .functions ⟨0⟩).run ((Change.struct ⟨0⟩).run twins ⟨0⟩) ⟨0⟩

def twinRenamed : Store :=
  (Change.rename "new" { functions := [⟨1⟩], modules := [⟨0⟩] }).run twinAdded ⟨0⟩

theorem reached_twinAdded : ∃ stale, Reached ⟨0⟩ twinAdded stale ∧ ¬ stale .functions ⟨0⟩ := by
  have hempty : ∀ shelf : Shelf, shelf.of ({ name := "old" } : Module) = .empty := fun shelf => by
    cases shelf <;> rfl
  have start : Reached ⟨0⟩ twins fun _ _ => False := .start rfl hempty
  have filled := start.change (.struct ⟨0⟩) fun _ => by decide
  exact ⟨_, filled.change (.function .functions ⟨0⟩) (by show _ = true; decide), fun h => h.1⟩

theorem foundByName_iff_twinAdded :
    ⟨0⟩ ∈ (Shelf.functions.of (twinAdded.module ⟨0⟩)).values ∧
      ∃ f, twinAdded.function? ⟨0⟩ = some f ∧ twinAdded.FoundByName ⟨0⟩ .functions ⟨0⟩ f := by
  have hid : ⟨0⟩ ∈ (Shelf.functions.of (twinAdded.module ⟨0⟩)).values := by decide +kernel
  obtain ⟨stale, hreached, hfresh⟩ := reached_twinAdded
  obtain ⟨f, hf, hiff⟩ := hreached.foundByName_iff hid
  exact ⟨hid, f, hf, hiff.2 hfresh⟩

/-- The renamed module does not find its function, and takes another of the same name. -/
theorem foundByName_fails_twinRenamed :
    (∃ stale, Reached ⟨0⟩ twinRenamed stale) ∧
      ⟨0⟩ ∈ (Shelf.functions.of (twinRenamed.module ⟨0⟩)).values ∧
      ∃ f g, twinRenamed.function? ⟨0⟩ = some f ∧ twinRenamed.function? ⟨1⟩ = some g ∧
        twinRenamed.mangledFunction (g.stamped (twinRenamed.module ⟨0⟩).name) =
          twinRenamed.mangledFunction f ∧
        (Shelf.functions.of (twinRenamed.module ⟨0⟩)).find? (twinRenamed.mangledFunction f) = none ∧
        (twinRenamed.registerOn .functions ⟨0⟩ ⟨1⟩).1 = true := by
  have hall : ((twinRenamed.function? ⟨0⟩).any fun f => (twinRenamed.function? ⟨1⟩).any fun g =>
      decide (twinRenamed.mangledFunction (g.stamped (twinRenamed.module ⟨0⟩).name) =
        twinRenamed.mangledFunction f ∧ (Shelf.functions.of (twinRenamed.module ⟨0⟩)).find?
          (twinRenamed.mangledFunction f) = none)) = true := by decide +kernel
  obtain ⟨f, hf, hall⟩ := (Option.any_eq_true _ _).1 hall
  obtain ⟨g, hg, hall⟩ := (Option.any_eq_true _ _).1 hall
  obtain ⟨hsame, hnone⟩ := of_decide_eq_true hall
  obtain ⟨stale, hreached, -⟩ := reached_twinAdded
  exact ⟨⟨_, hreached.change (.rename "new" { functions := [⟨1⟩], modules := [⟨0⟩] }) (.head _)⟩,
    by decide +kernel, f, g, hf, hg, hsame, hnone, by decide +kernel⟩

end Frontend.Store
