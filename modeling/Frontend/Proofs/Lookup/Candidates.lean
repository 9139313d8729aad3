import Mathlib.Data.List.Forall2
import Frontend.Proofs.Lookup.Searching

/-!
# Names of candidates

An ambiguous look-up lists its candidates by their mangled names, a structure or an annotation by
its own name behind the name of its module. Such a name can be looked up in turn: where the names of
the modules are distinct, it finds the candidate that it was listed for and nothing else. A plain
name finds one declaration in each module that has one of the name.
-/

namespace Frontend

variable {ι δ : Type}

/-- The answers of those that have one, one each and in turn. -/
theorem forall₂_filterMap {α β : Type} (f : α → Option β) (as : List α) :
    List.Forall₂ (fun a b => f a = some b) (as.filter fun a => (f a).isSome) (as.filterMap f) := by
  induction as with
  | nil => exact .nil
  | cons a as ih =>
    cases ha : f a with
    | none => simpa [ha] using ih
    | some b => simpa [ha] using ih

structure Category (ι δ : Type) where
  filed : Module → NameMap ι
  get? : Store → ι → Option δ
  name : δ → String
  module? : δ → Option String

namespace Category

def structs : Category StructId Struct :=
  ⟨Module.structs, Store.struct?, Struct.name, Struct.module?⟩

def annots : Category AnnotId Annot :=
  ⟨Module.annots, Store.annot?, Annot.name, Annot.module?⟩

variable (k : Category ι δ)

def mangledName (d : δ) : String := qualified (k.module? d) (k.name d)

def find (s : Store) (library : Library) (context : Option ModuleId) (name : String) : List ι :=
  s.lookupIn library context name fun m name => ((k.filed m).find? name).toList

def candidateNames (s : Store) (ids : List ι) : List String :=
  ids.filterMap fun id => (k.get? s id).map k.mangledName

/-- The module files the declaration under its own name, and has stamped it. -/
structure Files (s : Store) (m : ModuleId) (id : ι) (d : δ) : Prop where
  get? : k.get? s id = some d
  filed : (k.filed (s.module m)).find? (k.name d) = some id
  stamped : k.module? d = some (s.module m).name

/-- The list has one entry for each module that files a declaration under the name, in the order of
the modules, and no other. -/
def OneEach (s : Store) (library : Library) (name : String) (found : List ι) : Prop :=
  List.Forall₂ (fun m id => (k.filed (s.module m)).find? name = some id)
    (library.filter fun m => (k.filed (s.module m)).contains name) found

variable {k} {s : Store} {library : Library} {m : ModuleId} {id : ι} {d : δ} {name : String}

/-- The mangled name of a declaration in a named module finds the declaration only. -/
theorem Files.find_mangledName (h : k.Files s m id d) (hm : m ∈ library)
    (distinct : (library.map fun m => (s.module m).name).Nodup) (named : (s.module m).name ≠ "")
    (plain : ':' ∉ (k.name d).toList) (context : Option ModuleId) :
    k.find s library context (k.mangledName d) = [id] := by
  have mangled : k.mangledName d = (s.module m).name ++ "::" ++ k.name d := by
    rw [mangledName, h.stamped, qualified, if_neg (by simpa using named)]
  have first := Store.findModule?_of_distinct distinct hm
  rw [mangled, find,
    Store.lookupIn_qualified _ first (splitName_behind_colon plain) (.inl named), h.filed]
  rfl

theorem find_of_plain (plain : ':' ∉ name.toList) (context : Option ModuleId) :
    k.find s library context name =
      library.filterMap fun m => (k.filed (s.module m)).find? name := by
  rw [find, Store.lookupIn_eq_flatMap, Store.searched_of_plain plain, splitName_of_plain plain,
    List.filterMap_eq_flatMap_toList]

/-- A plain name finds one declaration in each module that has one of the name. -/
theorem oneEach_find (plain : ':' ∉ name.toList) (context : Option ModuleId) :
    k.OneEach s library name (k.find s library context name) := by
  rw [find_of_plain plain]
  exact forall₂_filterMap _ library

theorem map_candidateNames {ids : List ι} {find : String → List ι}
    (h : ∀ id ∈ ids, ∃ d, k.get? s id = some d ∧ find (k.mangledName d) = [id]) :
    (k.candidateNames s ids).map find = ids.map fun id => [id] := by
  induction ids with
  | nil => rfl
  | cons id ids ih =>
    obtain ⟨d, hd, hfind⟩ := h id List.mem_cons_self
    have rest := ih fun id' hid' => h id' (List.mem_cons_of_mem _ hid')
    rw [candidateNames] at rest ⊢
    rw [List.filterMap_cons, hd, Option.map_some, List.map_cons, hfind, rest, List.map_cons]

/-- Every module that has a declaration of the name has a name itself, and has stamped it. -/
def AllStamped (k : Category ι δ) (s : Store) (library : Library) (name : String) : Prop :=
  ∀ m ∈ library, ∀ id, (k.filed (s.module m)).find? name = some id →
    (s.module m).name ≠ "" ∧ ∃ d, k.Files s m id d ∧ k.name d = name

/-- Each candidate that is listed for a plain name can be looked up by what is listed. -/
theorem find_candidateNames (distinct : (library.map fun m => (s.module m).name).Nodup)
    (plain : ':' ∉ name.toList) (stamped : k.AllStamped s library name)
    (context context' : Option ModuleId) :
    (k.candidateNames s (k.find s library context name)).map (k.find s library context') =
      (k.find s library context name).map fun id => [id] := by
  apply map_candidateNames
  intro id hid
  rw [find_of_plain plain, List.mem_filterMap] at hid
  obtain ⟨m, hm, hfind⟩ := hid
  obtain ⟨named, d, hd, rfl⟩ := stamped m hm id hfind
  exact ⟨d, hd.get?, hd.find_mangledName hm distinct named plain context'⟩

end Category

namespace Store

/-- Where the names of the modules are distinct, the mangled name of a structure or an annotation of
a named module finds it and nothing else, from wherever it is looked up; a plain name finds one
declaration for each module that has one, in the order of the modules; and so the candidates of a
plain name are found one by one under the names that they are listed by. -/
theorem candidates_disambiguate (s : Store) (library : Library)
    (distinct : (library.map fun m => (s.module m).name).Nodup) :
    (∀ m ∈ library, (s.module m).name ≠ "" →
      (∀ id x, Category.structs.Files s m id x → ':' ∉ x.name.toList →
        ∀ context, s.findStructs library context x.mangledName = [id]) ∧
      (∀ id a, Category.annots.Files s m id a → ':' ∉ a.name.toList →
        ∀ context, s.findAnnots library context a.mangledName = [id])) ∧
    ∀ name, ':' ∉ name.toList →
      (∀ context, Category.structs.OneEach s library name (s.findStructs library context name) ∧
        Category.annots.OneEach s library name (s.findAnnots library context name)) ∧
      (Category.structs.AllStamped s library name → ∀ context context',
        (s.structNames (s.findStructs library context name)).map (s.findStructs library context') =
          (s.findStructs library context name).map fun id => [id]) ∧
      (Category.annots.AllStamped s library name → ∀ context context',
        (s.annotNames (s.findAnnots library context name)).map (s.findAnnots library context') =
          (s.findAnnots library context name).map fun id => [id]) := by
  refine ⟨fun m hm named => ⟨?_, ?_⟩, fun name plain => ⟨fun context => ⟨?_, ?_⟩, ?_, ?_⟩⟩
  · intro id x hx plain context
    exact hx.find_mangledName hm distinct named plain context
  · intro id a ha plain context
    exact ha.find_mangledName hm distinct named plain context
  · exact Category.oneEach_find plain context
  · exact Category.oneEach_find plain context
  · exact Category.find_candidateNames distinct plain
  · exact Category.find_candidateNames distinct plain

def twoShapes : Store :=
  let s : Store :=
    { structs := { slots := #[some { name := "Shape" }, some { name := "Shape" }] }
      modules := { slots := #[some { name := "geo" }, some { name := "ui::kit" }] } }
  let s := ((s.registerStruct ⟨0⟩ ⟨0⟩).2.registerStruct ⟨1⟩ ⟨1⟩).2
  let packed : Annot := { name := "packed", kind := .struct }
  ((s.registerAnnot ⟨0⟩ packed).2.registerAnnot ⟨1⟩ packed).2

/-- The structures and annotations of both modules are found by their mangled names, also by one
with two separators, and both structures are listed for `Shape`. -/
theorem candidates_disambiguate_twoShapes :
    (([⟨0⟩, ⟨1⟩] : Library).map fun m => (twoShapes.module m).name).Nodup ∧
      twoShapes.findStructs [⟨0⟩, ⟨1⟩] none "ui::kit::Shape" = [⟨1⟩] ∧
      twoShapes.findAnnots [⟨0⟩, ⟨1⟩] (some ⟨0⟩) "ui::kit::packed" = [⟨1⟩] ∧
      twoShapes.structNames (twoShapes.findStructs [⟨0⟩, ⟨1⟩] none "Shape") =
        ["geo::Shape", "ui::kit::Shape"] ∧
      (twoShapes.structNames (twoShapes.findStructs [⟨0⟩, ⟨1⟩] none "Shape")).map
        (twoShapes.findStructs [⟨0⟩, ⟨1⟩] (some ⟨0⟩)) = [[⟨0⟩], [⟨1⟩]] := by
  have distinct : (([⟨0⟩, ⟨1⟩] : Library).map fun m => (twoShapes.module m).name).Nodup := by
    decide +kernel
  have first : Category.structs.Files twoShapes ⟨0⟩ ⟨0⟩
      { name := "Shape", module? := some "geo" } := ⟨rfl, by decide +kernel, rfl⟩
  have second : Category.structs.Files twoShapes ⟨1⟩ ⟨1⟩
      { name := "Shape", module? := some "ui::kit" } := ⟨rfl, by decide +kernel, rfl⟩
  have packed : Category.annots.Files twoShapes ⟨1⟩ ⟨1⟩
      { name := "packed", kind := .struct, module? := some "ui::kit" } :=
    ⟨rfl, by decide +kernel, rfl⟩
  have stamped : Category.structs.AllStamped twoShapes [⟨0⟩, ⟨1⟩] "Shape" := by
    intro m hm id hfind
    rcases List.mem_cons.1 hm with rfl | hm
    · cases hfind.symm.trans first.filed
      exact ⟨by decide +kernel, _, first, rfl⟩
    · cases List.mem_singleton.1 hm
      cases hfind.symm.trans second.filed
      exact ⟨by decide +kernel, _, second, rfl⟩
  obtain ⟨mangled, plain⟩ := candidates_disambiguate twoShapes [⟨0⟩, ⟨1⟩] distinct
  have kit := mangled ⟨1⟩ (by decide) (by decide +kernel)
  have both : twoShapes.findStructs [⟨0⟩, ⟨1⟩] none "Shape" = [⟨0⟩, ⟨1⟩] := by decide +kernel
  refine ⟨distinct, kit.1 _ _ second (by decide) none, kit.2 _ _ packed (by decide) _, ?_, ?_⟩
  · rw [both]
    decide +kernel
  · rw [(plain "Shape" (by decide)).2.1 stamped, both]
    rfl

end Store

end Frontend
