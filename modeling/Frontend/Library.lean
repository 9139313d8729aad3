import Frontend.Store.Registry

/-!
# Libraries

The modules visible to a program, in registration order, and how names are looked up in them:
`module::name` in that module only, `::name` in the module the look-up is made from, and a plain
name in every module.
-/

namespace Frontend

abbrev Library := List ModuleId

private def splitLast : List Char → Option (List Char × List Char)
  | [] => none
  | c :: cs =>
    match splitLast cs with
    | some (front, back) => some (c :: front, back)
    | none =>
      match c, cs with
      | ':', ':' :: rest => some ([], rest)
      | _, _ => none

/-- The module and the name of a qualified name; an unqualified one has no module. -/
def splitName (name : String) : Option String × String :=
  match splitLast name.toList with
  | some (front, back) => (some (.ofList front), .ofList back)
  | none => (none, name)

/-- One colon in front does not split. -/
private theorem splitLast_cons {cs : List Char} (h : ':' ∉ cs) (c : Char) :
    splitLast (c :: cs) = none := by
  induction cs generalizing c with
  | nil => simp [splitLast]
  | cons d cs ih =>
    rw [List.mem_cons, not_or] at h
    unfold splitLast
    simp only [ih h.2]
    split
    · rename_i heq
      exact absurd (List.cons.inj heq).1.symm h.1
    · rfl

/-- A name without a colon has no qualifier. -/
theorem splitName_of_plain {name : String} (h : ':' ∉ name.toList) :
    splitName name = (none, name) := by
  unfold splitName
  cases hs : name.toList with
  | nil => rfl
  | cons c cs =>
    rw [hs, List.mem_cons, not_or] at h
    rw [splitLast_cons h.2]

/-- A name without a colon is plain behind a colon too. -/
theorem splitName_behind_colon {name : String} (h : ':' ∉ name.toList) :
    (splitName (":" ++ name)).1 = none := by
  have chars : (":" ++ name).toList = ':' :: name.toList := by simp
  rw [splitName, chars, splitLast_cons h]

private theorem splitLast_append {front back : List Char}
    (h : splitLast (':' :: back) = none) :
    splitLast (front ++ ':' :: ':' :: back) = some (front, back) := by
  induction front with
  | nil => rw [List.nil_append, splitLast, h]
  | cons c front ih =>
    rw [List.cons_append]
    unfold splitLast
    rw [ih]

/-- A qualifier ends where a name starts that is plain even behind a colon. -/
theorem splitName_qualified (module : String) {plain : String}
    (h : (splitName (":" ++ plain)).1 = none) :
    splitName (module ++ "::" ++ plain) = (some module, plain) := by
  have back : splitLast (':' :: plain.toList) = none := by
    have chars : (":" ++ plain).toList = ':' :: plain.toList := by simp
    unfold splitName at h
    rw [chars] at h
    cases hs : splitLast (':' :: plain.toList) with
    | none => rfl
    | some split =>
      rw [hs] at h
      cases h
  have chars : (module ++ "::" ++ plain).toList = module.toList ++ ':' :: ':' :: plain.toList := by
    simp
  simp only [splitName, chars, splitLast_append back, String.ofList_toList]

namespace Store

def findModule? (s : Store) (library : Library) (name : String) : Option ModuleId :=
  library.find? fun m => (s.module m).name == name

def lookupIn {α : Type} (s : Store) (library : Library) (context : Option ModuleId)
    (name : String) (find : Module → String → List α) : List α :=
  match splitName name with
  | (none, plain) => library.flatMap fun m => find (s.module m) plain
  | (some module, plain) =>
    match context with
    | some c =>
      if module.isEmpty then find (s.module c) plain
      else ((s.findModule? library module).map fun m => find (s.module m) plain).getD []
    | none => ((s.findModule? library module).map fun m => find (s.module m) plain).getD []

def findStructs (s : Store) (library : Library) (context : Option ModuleId) (name : String) :
    List StructId :=
  s.lookupIn library context name fun m name => (m.structs.find? name).toList

def findEnumerations (s : Store) (library : Library) (context : Option ModuleId)
    (name : String) : List EnumId :=
  s.lookupIn library context name fun m name => (m.enumerations.find? name).toList

def findAnnots (s : Store) (library : Library) (context : Option ModuleId) (name : String) :
    List AnnotId :=
  s.lookupIn library context name fun m name => (m.annots.find? name).toList

def findAliases (s : Store) (library : Library) (context : Option ModuleId) (name : String) :
    List Ty :=
  s.lookupIn library context name fun m name => (m.aliases.find? name).toList

def findCalls (s : Store) (library : Library) (context : Option ModuleId) (name : String) :
    List CallFactory :=
  s.lookupIn library context name fun m name => (m.calls.find? name).toList

def findFunctions (s : Store) (library : Library) (context : Option ModuleId) (name : String) :
    List FunctionId :=
  s.lookupIn library context name fun m name => m.functionsNamed s name

def findGenerics (s : Store) (library : Library) (context : Option ModuleId) (name : String) :
    List FunctionId :=
  s.lookupIn library context name fun m name => m.genericsNamed s name

/-- The modules of a name, or every module if the name is `*` or empty. -/
def modulesNamed (s : Store) (library : Library) (name : String) : List ModuleId :=
  library.filter fun m => name == "*" || name.isEmpty || (s.module m).name == name

def structNames (s : Store) (ids : List StructId) : List String :=
  ids.filterMap fun id => (s.struct? id).map (·.mangledName)

def enumerationNames (s : Store) (ids : List EnumId) : List String :=
  ids.filterMap fun id => (s.enumeration? id).map (·.mangledName)

def annotNames (s : Store) (ids : List AnnotId) : List String :=
  ids.filterMap fun id => (s.annot? id).map (·.mangledName)

end Store

def builtinModuleName : String := "$"

def builtinCalls : List (String × CallKind) :=
  [("assert", .assert), ("verify", .verify), ("static_assert", .staticAssert),
    ("concept_assert", .staticAssert), ("debug", .debug), ("invoke", .invoke), ("erase", .erase),
    ("find", .find), ("key_exists", .keyExists), ("memzero", .memZero)]

def builtinAnnots : List Annot :=
  [{ name := "export", kind := .function false }, { name := "init", kind := .function false },
    { name := "private", kind := .function false }, { name := "generic", kind := .function true }]

def Store.addBuiltinModule (s : Store) : ModuleId × Store :=
  let (m, s) := s.addModule { name := builtinModuleName, isBuiltin := true }
  let s := builtinCalls.foldl (fun s c => (s.registerCall m c.1 (.looksLike c.1 c.2)).2) s
  (m, builtinAnnots.foldl (fun s a => (s.registerAnnot m a).2) s)

end Frontend
